import TuyaDaemon.JsonLiteral
import TuyaDaemon.Standalone.Connection

/-!
# What send_current_time reports

The expansion of the format is spliced between quotes as it is. It is reported when it is
not empty and not longer than 188 bytes, and the report denotes it when no byte of it
would have had to be escaped.
-/

namespace TuyaDaemon.Standalone

set_option autoImplicit false

open JsonLiteral

/-- The local time that `get_time_string` formats. -/
def TimeEnv.now {Tm : Type} (env : TimeEnv Tm) : Option Tm :=
  if env.time = -1 then none else env.localtime env.time

/-- The expansion leaves room for itself and the end of the report. -/
def Fits (s : CString) : Prop := 1 ≤ s.length ∧ s.length ≤ 188

instance (s : CString) : Decidable (Fits s) := inferInstanceAs (Decidable (_ ∧ _))

/-- The report, as the SDK reads it from the buffer. -/
def reportText (s : CString) : CString := readCString (reportPrefix ++ s ++ cstr "\"\x7d")

section
variable {Tm : Type} (lib : Strftime Tm) (env : TimeEnv Tm)

theorem reportPrefix_length : reportPrefix.length = 9 := rfl

theorem reportPrefix_no_nul : ∀ c ∈ reportPrefix, c ≠ 0 := by
  have hall : reportPrefix.all (· != 0) = true := by decide
  simpa using hall

theorem readCString_replicate (n : Nat) : readCString (List.replicate n 0) = [] := by
  cases n <;> rfl

theorem usedBufLength_eq (n : Nat) :
    (readCString (reportPrefix ++ List.replicate n 0)).length = 9 := by
  rw [readCString_append reportPrefix_no_nul, readCString_replicate]
  rfl

theorem getTimeString_of_no_clock (h : env.now = none) (buf : List UInt8) (off strSize : Nat)
    (format : CString) : ∃ ret : Int, ret < 0 ∧
      getTimeString lib env buf off strSize format = .ok (ret, buf) := by
  unfold getTimeString
  unfold TimeEnv.now at h
  by_cases ht : env.time = -1
  · exact ⟨-1, by decide, by simp only [ht, if_true]; rfl⟩
  · rw [if_neg ht] at h
    exact ⟨-2, by decide, by simp only [ht, if_false, h]; rfl⟩

theorem getTimeString_of_now {tm : Tm} (h : env.now = some tm) (buf : List UInt8)
    (off strSize : Nat) (format : CString) :
    getTimeString lib env buf off strSize format = (do
      let buf ← writeAt buf off (strftime lib strSize format tm).2
      if (strftime lib strSize format tm).1 = 0 then return (-3, buf)
      else return (Int.ofNat (strftime lib strSize format tm).1, buf)) := by
  unfold getTimeString
  unfold TimeEnv.now at h
  by_cases ht : env.time = -1
  · rw [if_pos ht] at h
    cases h
  · rw [if_neg ht] at h
    simp only [ht, if_false, h]

theorem sendCurrentTime_of_no_clock (h : env.now = none) (format : CString) :
    sendCurrentTime lib env format = .ok (-1, []) := by
  unfold sendCurrentTime
  obtain ⟨ret, hneg, hget⟩ := getTimeString_of_no_clock lib env h
    (reportPrefix ++ List.replicate (bufSize - reportPrefix.length) 0)
    (readCString (reportPrefix ++ List.replicate (bufSize - reportPrefix.length) 0)).length
    (bufSize - (readCString (reportPrefix ++
      List.replicate (bufSize - reportPrefix.length) 0)).length) format
  simp only [hget, bind, Except.bind, hneg, if_true]
  rfl

/-- The start of `send_current_time`, with the sizes of its buffer. -/
theorem sendCurrentTime_eq (format : CString) :
    sendCurrentTime lib env format = (do
      let (timeLength, buf) ←
        getTimeString lib env (reportPrefix ++ List.replicate 191 0) 9 191 format
      if timeLength < 0 then return (-1, [])
      else if 9 + timeLength.toNat + 2 ≥ 200 then return (-2, [])
      else
        let buf ← writeAt buf (9 + timeLength.toNat) [34]
        let buf ← writeAt buf (9 + timeLength.toNat + 1) [125]
        let buf ← writeAt buf (9 + timeLength.toNat + 2) [0]
        let msg := readCString buf
        if env.report msg < 0 then return (-3, [.report msg]) else return (0, [.report msg])) := by
  unfold sendCurrentTime
  rw [show bufSize - reportPrefix.length = 191 from rfl]
  simp only [usedBufLength_eq]
  rfl

variable {tm : Tm} {format : CString}

theorem sendCurrentTime_of_overflow (h : env.now = some tm)
    (hs : 191 ≤ (lib.expansion format tm).length) :
    sendCurrentTime lib env format = .ok (-1, []) := by
  have hstr : strftime lib 191 format tm = (0, lib.unspecified format tm 191) := by
    rw [strftime, if_neg (by omega)]
  have hlen := lib.unspecified_length format tm 191
  have hroom : 9 + (lib.unspecified format tm 191).length ≤
      (reportPrefix ++ List.replicate 191 0).length := by
    rw [List.length_append, List.length_replicate, reportPrefix_length]
    omega
  have hwrite := writeAt_ok hroom
  rw [sendCurrentTime_eq, getTimeString_of_now lib env h]
  simp only [hstr, hwrite, bind, Except.bind, if_true]
  rfl

/-- An expansion that `strftime` accepts is in the buffer, followed by zeros. -/
theorem getTimeString_of_room (h : env.now = some tm)
    (hs : (lib.expansion format tm).length < 191) (hne : lib.expansion format tm ≠ []) :
    getTimeString lib env (reportPrefix ++ List.replicate 191 0) 9 191 format =
      .ok (Int.ofNat (lib.expansion format tm).length, reportPrefix ++ lib.expansion format tm ++
        List.replicate (191 - (lib.expansion format tm).length) 0) := by
  have hstr : strftime lib 191 format tm =
      ((lib.expansion format tm).length, lib.expansion format tm ++ [0]) := by
    rw [strftime, if_pos hs]
  have hwrite := writeAt_end reportPrefix (lib.expansion format tm ++ [0]) (n := 191)
    (by simp; omega)
  rw [reportPrefix_length] at hwrite
  rw [getTimeString_of_now lib env h]
  simp only [hstr, hwrite, bind, Except.bind, List.length_eq_zero_iff, hne, if_false]
  have hzeros : List.replicate (191 - (lib.expansion format tm).length) (0 : UInt8) =
      0 :: List.replicate (191 - (lib.expansion format tm ++ [0]).length) 0 := by
    rw [← List.replicate_succ, List.length_append, List.length_singleton]
    congr 1
    omega
  rw [hzeros]
  simp only [List.append_assoc, List.singleton_append]
  rfl

theorem sendCurrentTime_of_empty (h : env.now = some tm) (hs : lib.expansion format tm = []) :
    sendCurrentTime lib env format = .ok (-1, []) := by
  have hstr : strftime lib 191 format tm = (0, [0]) := by simp [strftime, hs]
  have hwrite := writeAt_end reportPrefix [0] (n := 191) (by decide)
  rw [reportPrefix_length] at hwrite
  rw [sendCurrentTime_eq, getTimeString_of_now lib env h]
  simp only [hstr, hwrite, bind, Except.bind, if_true]
  rfl

theorem sendCurrentTime_of_too_long (h : env.now = some tm)
    (hs : 189 ≤ (lib.expansion format tm).length) (hroom : (lib.expansion format tm).length < 191) :
    sendCurrentTime lib env format = .ok (-2, []) := by
  have hne : lib.expansion format tm ≠ [] := by
    intro hnil
    simp [hnil] at hs
  rw [sendCurrentTime_eq, getTimeString_of_room lib env h hroom hne]
  have hpos : ¬ (Int.ofNat (lib.expansion format tm).length < 0) := by simp
  have hge : 9 + (Int.ofNat (lib.expansion format tm).length).toNat + 2 ≥ 200 := by
    rw [Int.ofNat_eq_natCast, Int.toNat_natCast]
    omega
  simp only [bind, Except.bind, hpos, hge, if_false, if_true]
  rfl

/-- The three bytes that close the report, and what the SDK then reads. -/
theorem closeReport (s : CString) (hs : s.length ≤ 188) : ∃ quoted braced closed,
    writeAt (reportPrefix ++ s ++ List.replicate (191 - s.length) 0) (9 + s.length) [34] =
      .ok quoted ∧
    writeAt quoted (9 + s.length + 1) [125] = .ok braced ∧
    writeAt braced (9 + s.length + 2) [0] = .ok closed ∧ readCString closed = reportText s := by
  have hquote := writeAt_end (reportPrefix ++ s) [34] (n := 191 - s.length) (by simp; omega)
  have hbrace := writeAt_end (reportPrefix ++ s ++ [34]) [125] (n := 191 - s.length - 1)
    (by simp; omega)
  have hnul := writeAt_end (reportPrefix ++ s ++ [34] ++ [125]) [0] (n := 191 - s.length - 1 - 1)
    (by simp; omega)
  simp only [List.length_append, List.length_singleton, reportPrefix_length] at hquote hbrace hnul
  refine ⟨_, _, _, hquote, hbrace, hnul, ?_⟩
  rw [List.append_assoc _ [0], List.singleton_append, readCString_append_nul,
    List.append_assoc _ [34]]
  rfl

theorem sendCurrentTime_of_fits (h : env.now = some tm) (hs : Fits (lib.expansion format tm)) :
    sendCurrentTime lib env format =
      .ok (if env.report (reportText (lib.expansion format tm)) < 0 then -3 else 0,
        [.report (reportText (lib.expansion format tm))]) := by
  obtain ⟨hpos, hle⟩ := hs
  have hne : lib.expansion format tm ≠ [] := by
    intro hnil
    simp [hnil] at hpos
  obtain ⟨quoted, braced, closed, hquote, hbrace, hnul, hread⟩ := closeReport _ hle
  have hroom : ¬ (9 + (lib.expansion format tm).length + 2 ≥ 200) := by omega
  have hneg : ¬ (((lib.expansion format tm).length : Int) < 0) := by omega
  rw [sendCurrentTime_eq, getTimeString_of_room lib env h (by omega) hne]
  simp only [bind, Except.bind, Int.ofNat_eq_natCast, Int.toNat_natCast, hneg, hroom, if_false,
    hquote, hbrace, hnul, hread]
  split <;> rfl

/-- Nothing is reported, and the result is negative, when the expansion does not fit. -/
theorem sendCurrentTime_of_not_fits (h : env.now = some tm)
    (hs : ¬ Fits (lib.expansion format tm)) :
    ∃ ret : Int, ret < 0 ∧ sendCurrentTime lib env format = .ok (ret, []) := by
  by_cases hempty : lib.expansion format tm = []
  · exact ⟨-1, by decide, sendCurrentTime_of_empty lib env h hempty⟩
  · have hpos := List.length_pos_iff.mpr hempty
    have hlong : 189 ≤ (lib.expansion format tm).length := by
      by_contra hshort
      exact hs ⟨hpos, by omega⟩
    by_cases hroom : (lib.expansion format tm).length < 191
    · exact ⟨-2, by decide, sendCurrentTime_of_too_long lib env h hlong hroom⟩
    · exact ⟨-1, by decide, sendCurrentTime_of_overflow lib env h (by omega)⟩

/-- Every call completes, and does nothing but report, at most once. -/
theorem sendCurrentTime_outcome (format : CString) :
    ∃ ret es, sendCurrentTime lib env format = .ok (ret, es) ∧
      (es = [] ∨ ∃ msg, es = [.report msg]) := by
  cases hnow : env.now with
  | none => exact ⟨_, _, sendCurrentTime_of_no_clock lib env hnow format, Or.inl rfl⟩
  | some tm =>
    by_cases hs : Fits (lib.expansion format tm)
    · exact ⟨_, _, sendCurrentTime_of_fits lib env hnow hs, Or.inr ⟨_, rfl⟩⟩
    · obtain ⟨ret, _, hsend⟩ := sendCurrentTime_of_not_fits lib env hnow hs
      exact ⟨ret, _, hsend, Or.inl rfl⟩

/-- The text of the report: the whole expansion between its quotes. -/
def wholeReport (s : CString) : CString := reportPrefix ++ s ++ cstr "\"\x7d"

theorem wholeReport_length (s : CString) : (wholeReport s).length = s.length + 11 := by
  simp only [wholeReport, List.length_append, reportPrefix_length]
  have hend : (cstr "\"\x7d").length = 2 := rfl
  omega

theorem readCString_wholeReport {s : CString} (hs : ∀ c ∈ s, c ≠ 0) :
    readCString (wholeReport s) = wholeReport s := by
  unfold wholeReport
  rw [List.append_assoc, readCString_append reportPrefix_no_nul, readCString_append hs]
  rfl

/-- A buffer of 200 bytes that begins with the report and its terminator. -/
theorem exists_buffer (hs : Fits (lib.expansion format tm)) : ∃ buf : List UInt8,
    buf.length = bufSize ∧ (wholeReport (lib.expansion format tm) ++ [0]) <+: buf ∧
      readCString buf = reportText (lib.expansion format tm) := by
  have hlen := wholeReport_length (lib.expansion format tm)
  refine ⟨wholeReport (lib.expansion format tm) ++ 0 ::
    List.replicate (188 - (lib.expansion format tm).length) 0, ?_, ?_, ?_⟩
  · rw [List.length_append, List.length_cons, List.length_replicate, hlen]
    obtain ⟨_, hle⟩ := hs
    unfold bufSize
    omega
  · exact ⟨List.replicate (188 - (lib.expansion format tm).length) 0, by simp⟩
  · exact readCString_append_nul _ _

/-- The buffer is never written past its end. An expansion of 1 to 188 bytes is reported
whole, quoted and terminated; a longer one, or none, makes the result negative and nothing is
reported; and the result is 0 exactly when the SDK took a report. -/
theorem sendCurrentTime_exact_fit (format : CString) :
    ∃ ret es, sendCurrentTime lib env format = .ok (ret, es) ∧
      (∀ tm, env.now = some tm → Fits (lib.expansion format tm) →
        ∃ buf : List UInt8, buf.length = bufSize ∧
          (wholeReport (lib.expansion format tm) ++ [0]) <+: buf ∧
          es = [.report (readCString buf)] ∧
          ((∀ c ∈ lib.expansion format tm, c ≠ 0) →
            readCString buf = wholeReport (lib.expansion format tm))) ∧
      ((env.now = none ∨ ∃ tm, env.now = some tm ∧ 189 ≤ (lib.expansion format tm).length) →
        ret < 0 ∧ es = []) ∧
      (ret = 0 ↔ ∃ msg, es = [.report msg] ∧ 0 ≤ env.report msg) := by
  cases hnow : env.now with
  | none =>
    refine ⟨_, _, sendCurrentTime_of_no_clock lib env hnow format, nofun, ?_, ?_⟩
    · intro _
      exact ⟨by decide, rfl⟩
    · simp
  | some tm =>
    by_cases hs : Fits (lib.expansion format tm)
    · obtain ⟨buf, hlen, hprefix, hread⟩ := exists_buffer lib hs
      refine ⟨_, _, sendCurrentTime_of_fits lib env hnow hs, ?_, ?_, ?_⟩
      · intro t ht _
        obtain rfl := Option.some.inj ht
        refine ⟨buf, hlen, hprefix, by rw [hread], fun hno => ?_⟩
        rw [hread]
        exact readCString_wholeReport hno
      · rintro (hnone | ⟨t, ht, hlong⟩)
        · cases hnone
        · obtain rfl := Option.some.inj ht
          obtain ⟨_, hle⟩ := hs
          omega
      · by_cases hneg : env.report (reportText (lib.expansion format tm)) < 0
        · simp [hneg]
        · simp [hneg, Int.not_lt.mp hneg]
    · obtain ⟨ret, hret, hsend⟩ := sendCurrentTime_of_not_fits lib env hnow hs
      refine ⟨ret, [], hsend, ?_, fun _ => ⟨hret, rfl⟩, ?_⟩
      · intro t ht hfits
        obtain rfl := Option.some.inj ht
        exact absurd hfits hs
      · constructor
        · rintro rfl
          cases hret
        · rintro ⟨_, hes, _⟩
          cases hes

end

/-! Whether the report denotes the expansion. -/

section Decoding
variable {s name value : CString}

theorem reportText_eq (s : CString) :
    reportText s = reportPrefix ++ readCString (s ++ cstr "\"\x7d") := by
  rw [reportText, List.append_assoc, readCString_append reportPrefix_no_nul]

theorem time_plain : ∀ c ∈ cstr "time", IsPlain c := by
  have hall : ((cstr "time").all fun c => decide (IsPlain c)) = true := by decide
  simpa using hall

theorem oneMember_of_plain (h : ∀ c ∈ s, IsPlain c) :
    OneMember (reportText s) (cstr "time") s := by
  have hread : readCString (s ++ cstr "\"\x7d") = s ++ cstr "\"\x7d" := by
    rw [readCString_append fun c hc => (h c hc).ne_zero]
    rfl
  rw [reportText_eq, hread]
  refine ⟨[], [], [], [], [], [], cstr "time\":\"" ++ (s ++ cstr "\"\x7d"), s ++ cstr "\"\x7d",
    nofun, nofun, nofun, nofun, nofun, nofun, rfl, ?_, ?_⟩
  · exact Chars.of_plain time_plain _
  · exact Chars.of_plain h _

/-- The inside of the only string of a text that begins like the report. -/
theorem chars_of_oneMember {tail : CString} (h : OneMember (reportPrefix ++ tail) name value) :
    ∃ w₄ w₅, Chars tail value (w₄ ++ 125 :: w₅) := by
  obtain ⟨w₀, w₁, w₂, w₃, w₄, w₅, t₁, t₂, h₀, h₁, h₂, h₃, -, -, htext, hname, hvalue⟩ := h
  have hsplit : reportPrefix ++ tail = 123 :: 34 :: (cstr "time" ++ 34 :: 58 :: 34 :: tail) := rfl
  rw [hsplit] at htext
  obtain rfl := h₀.eq_nil (by decide) htext
  obtain ⟨_, htext⟩ := List.cons_eq_cons.mp htext
  obtain rfl := h₁.eq_nil (by decide) htext
  obtain ⟨_, rfl⟩ := List.cons_eq_cons.mp htext
  obtain ⟨_, hrest⟩ := Chars.of_plain_inv time_plain hname
  obtain rfl := h₂.eq_nil (by decide) hrest.symm
  obtain ⟨_, hrest⟩ := List.cons_eq_cons.mp hrest
  obtain rfl := h₃.eq_nil (by decide) hrest.symm
  obtain ⟨_, rfl⟩ := List.cons_eq_cons.mp hrest
  exact ⟨w₄, w₅, hvalue⟩

/-- The report has no room for an escape: if it denotes `s`, then `s` is plain. -/
theorem plain_of_oneMember (h : OneMember (reportText s) name s) : ∀ c ∈ s, IsPlain c := by
  rw [reportText_eq] at h
  obtain ⟨w₄, w₅, hchars⟩ := chars_of_oneMember h
  obtain ⟨text, htext, hle, heq⟩ := hchars.consumed
  have hlen := (readCString_isPrefix (s ++ cstr "\"\x7d")).length_le
  have hend : (cstr "\"\x7d").length = 2 := rfl
  rw [htext] at hlen
  simp only [List.length_append, List.length_cons, hend] at hlen
  exact (heq (by omega)).2

theorem oneMember_reportText_iff (s : CString) :
    OneMember (reportText s) (cstr "time") s ↔ ∀ c ∈ s, IsPlain c :=
  ⟨plain_of_oneMember, oneMember_of_plain⟩

end Decoding

section
variable {Tm : Type} (lib : Strftime Tm) (env : TimeEnv Tm) (format : CString)

/-- Every report is an object with the one member `time`, and that denotes the expansion. -/
def ReportDecodes : Prop :=
  ∀ tm, env.now = some tm → ∀ ret es, sendCurrentTime lib env format = .ok (ret, es) →
    ∀ msg, .report msg ∈ es → OneMember msg (cstr "time") (lib.expansion format tm)

/-- The report decodes to the expansion exactly when the expansion is not reported, or
has no quote, no backslash and no control character. -/
theorem reportDecodes_iff : ReportDecodes lib env format ↔
    ∀ tm, env.now = some tm → Fits (lib.expansion format tm) →
      ∀ c ∈ lib.expansion format tm, IsPlain c := by
  refine forall₂_congr fun tm hnow => ?_
  by_cases hs : Fits (lib.expansion format tm)
  · rw [sendCurrentTime_of_fits lib env hnow hs, ← oneMember_reportText_iff]
    constructor
    · intro h _
      exact h _ _ rfl _ List.mem_cons_self
    · intro h ret es hrun msg hmsg
      obtain ⟨-, rfl⟩ := Prod.mk.inj (Except.ok.inj hrun)
      obtain rfl := Effect.report.inj (List.mem_singleton.mp hmsg)
      exact h hs
  · obtain ⟨r, -, hr⟩ := sendCurrentTime_of_not_fits lib env hnow hs
    rw [hr]
    constructor
    · intro _ hfits
      exact absurd hfits hs
    · intro _ ret es hrun msg hmsg
      obtain ⟨-, rfl⟩ := Prod.mk.inj (Except.ok.inj hrun)
      cases hmsg

end
/-- A `strftime` at a fixed time that knows `%F`, `%T`, `%z` and `%%`. -/
def expandPlain : CString → CString
  | [] => []
  | [c] => [c]
  | c :: d :: format =>
    if c = 37 then
      (if d = 70 then cstr "2024-05-06" else if d = 84 then cstr "07:08:09"
        else if d = 122 then cstr "+0000" else if d = 37 then cstr "%" else []) ++
        expandPlain format
    else c :: expandPlain (d :: format)

def plainStrftime : Strftime Unit where
  expansion format _ := expandPlain format
  unspecified _ _ _ := []
  expansion_nil _ := rfl
  expansion_ordinary c format _ hc := by
    cases format with
    | nil => rfl
    | cons d format => simp [expandPlain, hc]
  unspecified_length _ _ size := Nat.zero_le size

def workingClock : TimeEnv Unit := ⟨1, fun _ => some (), fun _ => 1⟩

def quoteText : CString := cstr "\x7b\"date_time_format\":\"\\\"\"\x7d"

def quoteDecode : Decoder :=
  .ofTable [(quoteText, .object [(cstr "date_time_format", .string [34])])] (by decide)

/-- A message that sets the format to one quotation mark makes the report malformed. -/
theorem not_reportDecodes_quote :
    ∃ d next es, onMessages quoteDecode ⟨.propertySet, some quoteText⟩ initialFormat 1 =
        .ok (d, next, es) ∧
      ¬ ReportDecodes plainStrftime workingClock d.format.text := by
  refine ⟨_, _, _, rfl, ?_⟩
  intro h
  have hfits : Fits (plainStrftime.expansion [34] ()) := by decide
  have hmember := h () rfl _ _ (sendCurrentTime_of_fits plainStrftime workingClock rfl hfits) _
    List.mem_cons_self
  exact absurd (plain_of_oneMember hmember 34 (by decide)) (by decide)

end TuyaDaemon.Standalone
