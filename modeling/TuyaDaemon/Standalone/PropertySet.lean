import Mathlib.Data.List.Nodup
import TuyaDaemon.JsonText
import TuyaDaemon.Standalone.Connection

/-!
# What a PROPERTY_SET message does

The handler looks at the first child of the parse tree through its raw fields. Every JSON
value is covered: an object either has its first member adopted or is parsed and deleted
again, values without children are deleted again, and an array with elements faults. So does
a text that `cJSON_Parse` refuses.
-/

namespace TuyaDaemon.Standalone

set_option autoImplicit false

/-- The string that an object makes `on_messages` adopt: the value of its first member. -/
def adopted : List (CString × Json) → Option CString
  | (name, .string s) :: _ => if name = cstr "date_time_format" then some s else none
  | _ => none

theorem adopted_eq_some_iff {members : List (CString × Json)} {s : CString} :
    adopted members = some s ↔
      ∃ rest, members = (cstr "date_time_format", .string s) :: rest := by
  constructor
  · intro h
    match members, h with
    | (name, .string t) :: rest, h =>
      simp only [adopted] at h
      split at h
      · rename_i hname
        obtain rfl := Option.some.inj h
        exact ⟨rest, by rw [hname]⟩
      · cases h
  · rintro ⟨rest, rfl⟩
    simp [adopted]

/-- A message that is parsed and deleted again. -/
def discard (next : Nat) (j : Json) : List Effect :=
  [.parse (CJson.build none next j).1.strings, .delete (CJson.build none next j).1.strings]

section
variable {decode : Decoder} {data : Option CString} {j : Json}

theorem parse_of_decoded (h : data.bind decode = some j) (next : Nat) :
    CJson.parse decode next data =
      (some (CJson.build none next j).1, (CJson.build none next j).2) := by
  rw [CJson.parse, h]

/-- The handler does not test what the parser returns. -/
theorem propertySet_of_refused (h : data.bind decode = none) (d : DateTimeFormat) (next : Nat) :
    propertySet decode data d next = .error .nullDereference := by
  simp only [propertySet, CJson.parse, h, deref, bind, Except.bind]

theorem propertySet_of_childless (h : data.bind decode = some j) (d : DateTimeFormat) (next : Nat)
    (hchild : (CJson.build none next j).1.child = []) :
    propertySet decode data d next = .ok (d, (CJson.build none next j).2, discard next j) := by
  unfold propertySet
  rw [parse_of_decoded h]
  simp only [bind, Except.bind, deref_some, hchild]
  rfl

/-- The elements of an array have no name, and the handler compares the name of the first. -/
theorem propertySet_of_array {e : Json} {es : List Json}
    (h : data.bind decode = some (.array (e :: es))) (d : DateTimeFormat) (next : Nat) :
    propertySet decode data d next = .error .nullDereference := by
  have hchild : (CJson.build none next (.array (e :: es))).1.child =
      (CJson.build none next e).1 ::
        (CJson.buildElements (CJson.build none next e).2 es).1 := rfl
  unfold propertySet
  rw [parse_of_decoded h]
  simp only [bind, Except.bind, deref_some, hchild, CJson.build_string]
  rfl

theorem build_object_child (next : Nat) (name : CString) (v : Json)
    (rest : List (CString × Json)) :
    (CJson.build none next (.object ((name, v) :: rest))).1.child =
      (CJson.build (some ⟨next, name⟩) (next + 1) v).1 ::
        (CJson.buildMembers (CJson.build (some ⟨next, name⟩) (next + 1) v).2 rest).1 := rfl

theorem propertySet_of_rejected {members : List (CString × Json)}
    (h : data.bind decode = some (.object members)) (hnone : adopted members = none)
    (d : DateTimeFormat) (next : Nat) :
    propertySet decode data d next =
      .ok (d, (CJson.build none next (.object members)).2, discard next (.object members)) := by
  cases members with
  | nil => exact propertySet_of_childless h d next rfl
  | cons member rest =>
    obtain ⟨name, v⟩ := member
    unfold propertySet
    rw [parse_of_decoded h]
    simp only [bind, Except.bind, deref_some, build_object_child, CJson.build_string,
      strcmpEq_some]
    by_cases hname : name = cstr "date_time_format"
    · simp only [hname, beq_self_eq_true, Bool.not_true, Bool.false_eq_true, if_false]
      cases v with
      | string s => simp [adopted, hname] at hnone
      | _ => rfl
    · simp only [beq_false_of_ne hname, Bool.not_false, if_true]
      rfl

/-- The tree of an adopted message without the string that is taken out of it. -/
def leftOver (next : Nat) (rest : List (CString × Json)) : List HeapString :=
  ⟨next, cstr "date_time_format"⟩ :: CJson.stringsOf (CJson.buildMembers (next + 2) rest).1

theorem strings_of_adopted (next : Nat) (s : CString) (rest : List (CString × Json)) :
    (CJson.build none next
      (.object ((cstr "date_time_format", .string s) :: rest))).1.strings =
      ⟨next, cstr "date_time_format"⟩ :: ⟨next + 1, s⟩ ::
        CJson.stringsOf (CJson.buildMembers (next + 2) rest).1 := rfl

theorem propertySet_of_adopted {s : CString} {rest : List (CString × Json)}
    (h : data.bind decode = some (.object ((cstr "date_time_format", .string s) :: rest)))
    (d : DateTimeFormat) (next : Nat) :
    propertySet decode data d next =
      .ok (⟨true, .heap ⟨next + 1, s⟩⟩,
        (CJson.build none next (.object ((cstr "date_time_format", .string s) :: rest))).2,
        .parse (CJson.build none next
            (.object ((cstr "date_time_format", .string s) :: rest))).1.strings ::
          freeDateTimeFormat d ++ [.delete (leftOver next rest)]) := by
  unfold propertySet
  rw [parse_of_decoded h]
  simp only [bind, Except.bind, deref_some, build_object_child, CJson.build_string,
    strcmpEq_some, beq_self_eq_true, Bool.not_true, Bool.false_eq_true, if_false]
  rfl

/-- On an object the handler completes, and installs the string that it adopts, if any. -/
theorem propertySet_object {members : List (CString × Json)}
    (h : data.bind decode = some (.object members)) (d : DateTimeFormat) (next : Nat) :
    ∃ d' next' es, propertySet decode data d next = .ok (d', next', es) ∧
      d'.format.text = (adopted members).getD d.format.text := by
  cases hm : adopted members with
  | none => exact ⟨d, _, _, propertySet_of_rejected h hm d next, rfl⟩
  | some s =>
    obtain ⟨rest, rfl⟩ := adopted_eq_some_iff.mp hm
    exact ⟨_, _, _, propertySet_of_adopted h d next, rfl⟩

end

/-! Which payloads the handler gets through. -/

/-- The format that a payload carries. -/
def carried : Json → Option CString
  | .object members => adopted members
  | _ => none

/-- The format that a message carries. -/
def received (decode : Decoder) (msg : TuyalinkMessage) : Option CString :=
  match msg.type with
  | .propertySet => (msg.dataString.bind decode).bind carried
  | _ => none

theorem received_of_propertySet {decode : Decoder} {msg : TuyalinkMessage}
    (h : msg.type = .propertySet) :
    received decode msg = (msg.dataString.bind decode).bind carried := by
  simp only [received, h]

/-- Messages of the other types are only logged. -/
theorem onMessages_of_other {decode : Decoder} {msg : TuyalinkMessage}
    (h : msg.type ≠ .propertySet) (d : DateTimeFormat) (next : Nat) :
    received decode msg = none ∧ onMessages decode msg d next = .ok (d, next, []) := by
  cases htype : msg.type with
  | propertySet => exact absurd htype h
  | _ =>
    simp only [received, onMessages, htype]
    exact ⟨trivial, rfl⟩

/-- Everything that the handler can do when it does not fault: nothing, discard what it has
parsed, or take the value of the first member out of the tree. -/
theorem onMessages_cases {decode : Decoder} {msg : TuyalinkMessage}
    {d d' : DateTimeFormat} {next next' : Nat} {es : List Effect}
    (h : onMessages decode msg d next = .ok (d', next', es)) :
    (received decode msg = none ∧ d' = d ∧
      ((next' = next ∧ es = []) ∨
        ∃ j, next' = (CJson.build none next j).2 ∧ es = discard next j)) ∨
    ∃ s rest, received decode msg = some s ∧ d' = ⟨true, .heap ⟨next + 1, s⟩⟩ ∧
      next' = (CJson.build none next
        (.object ((cstr "date_time_format", .string s) :: rest))).2 ∧
      es = .parse (CJson.build none next
          (.object ((cstr "date_time_format", .string s) :: rest))).1.strings ::
        freeDateTimeFormat d ++ [.delete (leftOver next rest)] := by
  by_cases htype : msg.type = .propertySet
  · simp only [onMessages, htype] at h
    rw [received_of_propertySet htype]
    cases hdata : msg.dataString.bind decode with
    | none =>
      rw [propertySet_of_refused hdata d next] at h
      cases h
    | some j =>
      have hchildless : (CJson.build none next j).1.child = [] → carried j = none →
          (carried j = none ∧ d' = d ∧ ((next' = next ∧ es = []) ∨
            ∃ j, next' = (CJson.build none next j).2 ∧ es = discard next j)) := by
        intro hchild hnone
        rw [propertySet_of_childless hdata d next hchild] at h
        cases h
        exact ⟨hnone, rfl, Or.inr ⟨j, rfl, rfl⟩⟩
      cases j with
      | object members =>
        cases hm : adopted members with
        | none =>
          rw [propertySet_of_rejected hdata hm d next] at h
          cases h
          exact Or.inl ⟨hm, rfl, Or.inr ⟨_, rfl, rfl⟩⟩
        | some s =>
          obtain ⟨rest, rfl⟩ := adopted_eq_some_iff.mp hm
          rw [propertySet_of_adopted hdata d next] at h
          cases h
          exact Or.inr ⟨s, rest, hm, rfl, rfl, rfl⟩
      | array elements =>
        cases elements with
        | nil => exact Or.inl (hchildless rfl rfl)
        | cons e elements =>
          rw [propertySet_of_array hdata d next] at h
          cases h
      | bool b => exact Or.inl (hchildless (by cases b <;> rfl) rfl)
      | _ => exact Or.inl (hchildless rfl rfl)
  · obtain ⟨hnone, hrun⟩ := onMessages_of_other htype d next
    rw [hrun] at h
    cases h
    exact Or.inl ⟨hnone, rfl, Or.inl ⟨rfl, rfl⟩⟩

def Effect.delete? : Effect → Option (List HeapString)
  | delete freed => some freed
  | _ => none

/-- The calls of `cJSON_Delete`, each with what it frees. -/
def deletions (es : List Effect) : List (List HeapString) := es.filterMap Effect.delete?

/-- If the text is valid JSON, the handler completes without a fault, changes the format only
when the payload carries one, and deletes the tree once, but for the string that it adopts. -/
def HandlesSafely (decode : Decoder) (text : CString) : Prop :=
  JsonText.Valid text → ∀ d next, ∃ d' next' es,
    onMessages decode ⟨.propertySet, some text⟩ d next = .ok (d', next', es) ∧
      (∀ j, decode text = some j → carried j = none → d' = d) ∧
      ∃ freed, deletions es = [freed] ∧ ∀ j, decode text = some j →
        ∀ p ∈ (CJson.build none next j).1.strings, p ∈ freed ∨ d'.format = .heap p

theorem discard_spec (next : Nat) (j : Json) (d : DateTimeFormat) :
    ∃ freed, deletions (discard next j) = [freed] ∧
      ∀ p ∈ (CJson.build none next j).1.strings, p ∈ freed ∨ d.format = .heap p :=
  ⟨_, rfl, fun _ hp => Or.inl hp⟩

theorem deletions_of_adopted (d : DateTimeFormat) (made freed : List HeapString) :
    deletions (.parse made :: freeDateTimeFormat d ++ [.delete freed]) = [freed] := by
  unfold freeDateTimeFormat
  split <;> rfl

/-- A payload that is not an array with elements is handled as it should be. -/
theorem handled {decode : Decoder} {data : Option CString} {j : Json}
    (hdata : data.bind decode = some j) (hj : ∀ e es, j ≠ .array (e :: es)) (d : DateTimeFormat)
    (next : Nat) : ∃ d' next' es, propertySet decode data d next = .ok (d', next', es) ∧
      (carried j = none → d' = d) ∧ ∃ freed, deletions es = [freed] ∧
        ∀ p ∈ (CJson.build none next j).1.strings, p ∈ freed ∨ d'.format = .heap p := by
  have hchildless (hchild : (CJson.build none next j).1.child = []) : ∃ d' next' es,
      propertySet decode data d next = .ok (d', next', es) ∧
        (carried j = none → d' = d) ∧ ∃ freed, deletions es = [freed] ∧
          ∀ p ∈ (CJson.build none next j).1.strings, p ∈ freed ∨ d'.format = .heap p :=
    ⟨_, _, _, propertySet_of_childless hdata d next hchild, fun _ => rfl, discard_spec next j d⟩
  cases j with
  | object members =>
    cases hm : adopted members with
    | none =>
      have hrun := propertySet_of_rejected hdata hm d next
      exact ⟨_, _, _, hrun, fun _ => rfl, discard_spec next (.object members) d⟩
    | some s =>
      obtain ⟨rest, rfl⟩ := adopted_eq_some_iff.mp hm
      have hrun := propertySet_of_adopted hdata d next
      refine ⟨_, _, _, hrun, ?_, _, deletions_of_adopted d _ _, ?_⟩
      · intro hnone
        rw [carried, hm] at hnone
        cases hnone
      · intro p hp
        rw [strings_of_adopted] at hp
        simp only [List.mem_cons] at hp
        rcases hp with rfl | rfl | hp
        · exact Or.inl List.mem_cons_self
        · exact Or.inr rfl
        · exact Or.inl (List.mem_cons_of_mem _ hp)
  | array elements =>
    cases elements with
    | nil => exact hchildless rfl
    | cons e es => exact absurd rfl (hj e es)
  | null => exact hchildless rfl
  | bool b => exact hchildless (by cases b <;> rfl)
  | number q => exact hchildless rfl
  | string s => exact hchildless rfl

/-- A valid text is handled safely exactly when `cJSON_Parse` accepts it and it is not an array
with at least one element. -/
theorem handlesSafely_iff (decode : Decoder) (text : CString) :
    HandlesSafely decode text ↔
      (JsonText.Valid text → ∃ j, decode text = some j ∧ ∀ e es, j ≠ .array (e :: es)) := by
  constructor
  · intro h hvalid
    obtain ⟨d', next', effects, hrun, _⟩ := h hvalid initialFormat 0
    simp only [onMessages] at hrun
    cases hj : decode text with
    | none =>
      have hdata : (some text).bind decode = none := hj
      rw [propertySet_of_refused hdata] at hrun
      cases hrun
    | some j =>
      refine ⟨j, rfl, ?_⟩
      rintro e es rfl
      have hdata : (some text).bind decode = some (.array (e :: es)) := hj
      rw [propertySet_of_array hdata] at hrun
      cases hrun
  · intro h hvalid d next
    obtain ⟨j, hj, harray⟩ := h hvalid
    have hdata : (some text).bind decode = some j := hj
    obtain ⟨d', next', es, hrun, hformat, freed, hfreed, hall⟩ := handled hdata harray d next
    refine ⟨d', next', es, hrun, ?_, freed, hfreed, ?_⟩
    · intro j' hj'
      obtain rfl := Option.some.inj (hj.symm.trans hj')
      exact hformat
    · intro j' hj'
      obtain rfl := Option.some.inj (hj.symm.trans hj')
      exact hall

def arrayText : CString := cstr "[1]"

def arrayDecode : Decoder := .ofTable [(arrayText, .array [.number 1])] rfl

theorem valid_arrayText : JsonText.Valid arrayText := by
  have htext : arrayText = [91, 49, 93] := by decide
  rw [htext]
  exact .of_value (.array (.last (.of_value (.of_digit (by decide) [93]))))

/-- The text `[1]` is valid JSON, and the name of its first element is NULL. -/
theorem not_handlesSafely_array : ¬ HandlesSafely arrayDecode arrayText := by
  intro h
  obtain ⟨_, _, _, hrun, _⟩ := h valid_arrayText initialFormat 0
  cases hrun

/-! Whether the order of the members matters. -/

/-- Handling the payload, in any text of it that `cJSON_Parse` accepts, leaves a format with
this content. -/
def LeavesContent (j : Json) (d : DateTimeFormat) (content : CString) : Prop :=
  ∀ decode text next, decode text = some j → ∃ d' next' es,
    onMessages decode ⟨.propertySet, some text⟩ d next = .ok (d', next', es) ∧
      d'.format.text = content

/-- Every permutation of the members leaves the same content, and it is the value of
`date_time_format` if that is among them and a string. -/
def OrderIndependent (members : List (CString × Json)) (d : DateTimeFormat) : Prop :=
  ∀ members', members.Perm members' → ∃ content, LeavesContent (.object members) d content ∧
    LeavesContent (.object members') d content ∧
      ∀ s, (cstr "date_time_format", .string s) ∈ members → content = s

section
variable {members members' : List (CString × Json)} {d : DateTimeFormat} {s : CString}

theorem leavesContent_object_iff (hz : (Json.object members).nulFree = true)
    (content : CString) : LeavesContent (.object members) d content ↔
      (adopted members).getD d.format.text = content := by
  constructor
  · intro h
    let decode : Decoder := .ofTable [([], .object members)] (by simp [hz])
    have hdata : (some []).bind decode = some (.object members) := rfl
    obtain ⟨d₁, n₁, es₁, hrun, htext⟩ := h decode [] 0 rfl
    obtain ⟨d₂, n₂, es₂, hrun', htext'⟩ := propertySet_object hdata d 0
    have heq := hrun.symm.trans hrun'
    obtain ⟨rfl, _⟩ := Prod.mk.inj (Except.ok.inj heq)
    exact htext'.symm.trans htext
  · rintro rfl decode text next htext
    have hdata : (some text).bind decode = some (.object members) := htext
    exact propertySet_object hdata d next

theorem nulFree_of_perm (hz : (Json.object members).nulFree = true)
    (hperm : members.Perm members') : (Json.object members').nulFree = true := by
  simp only [Json.nulFree, Json.nulFreeMembers_iff] at hz ⊢
  exact fun m hm => hz m (hperm.mem_iff.mpr hm)

theorem adopted_of_ne {m : CString × Json} (h : m.1 ≠ cstr "date_time_format") :
    adopted (m :: members) = none := by
  apply Option.eq_none_iff_forall_ne_some.mpr
  intro t ht
  obtain ⟨rest, heq⟩ := adopted_eq_some_iff.mp ht
  obtain ⟨rfl, _⟩ := List.cons_eq_cons.mp heq
  exact h rfl

theorem mem_of_adopted (h : adopted members = some s) :
    (cstr "date_time_format", .string s) ∈ members := by
  obtain ⟨rest, rfl⟩ := adopted_eq_some_iff.mp h
  exact List.mem_cons_self

/-- With distinct names the member has one value. -/
theorem value_unique (hn : (members.map Prod.fst).Nodup) {t : CString}
    (hs : (cstr "date_time_format", .string s) ∈ members)
    (ht : (cstr "date_time_format", .string t) ∈ members) : s = t := by
  have heq := List.inj_on_of_nodup_map hn hs ht rfl
  exact Json.string.inj (Prod.mk.inj heq).2

/-- A member that is not alone can be moved behind another one. -/
theorem exists_perm_other_first (hn : (members.map Prod.fst).Nodup) {x : CString × Json}
    (hx : x ∈ members) (hlen : members.length ≠ 1) :
    ∃ m rest, members.Perm (m :: rest) ∧ m.1 ≠ x.1 := by
  obtain ⟨a, b, rfl⟩ := List.append_of_mem hx
  have hperm : (a ++ x :: b).Perm (x :: (a ++ b)) := List.perm_middle
  cases hab : a ++ b with
  | nil =>
    have hone := hperm.length_eq
    rw [hab] at hone
    exact absurd hone hlen
  | cons m c =>
    rw [hab] at hperm
    refine ⟨m, x :: c, hperm.trans (List.Perm.swap m x c), ?_⟩
    have hnodup := (hperm.map Prod.fst).nodup_iff.mp hn
    intro hname
    apply (List.nodup_cons.mp hnodup).1
    rw [← hname]
    exact List.mem_cons_self

/-- A member that is alone, or whose value is the current format, decides the content. -/
theorem content_of_member (hn : (members.map Prod.fst).Nodup)
    (hs : (cstr "date_time_format", .string s) ∈ members)
    (h : members.length = 1 ∨ s = d.format.text) (hperm : members.Perm members') :
    (adopted members').getD d.format.text = s := by
  rcases h with hone | hsame
  · obtain ⟨m, rfl⟩ := List.length_eq_one_iff.mp hone
    obtain rfl := List.mem_singleton.mp hs
    obtain rfl := List.singleton_perm.mp hperm
    simp [adopted]
  · cases hm : adopted members' with
    | none => exact hsame.symm
    | some t => exact value_unique hn (hperm.mem_iff.mpr (mem_of_adopted hm)) hs

/-- The order of the members matters exactly when one of several members is a
`date_time_format` with a new string. -/
theorem orderIndependent_iff (hn : (members.map Prod.fst).Nodup)
    (hz : (Json.object members).nulFree = true) (d : DateTimeFormat) :
    OrderIndependent members d ↔ ∀ s, (cstr "date_time_format", .string s) ∈ members →
      members.length = 1 ∨ s = d.format.text := by
  constructor
  · intro h s hs
    by_cases hlen : members.length = 1
    · exact Or.inl hlen
    · obtain ⟨m, rest, hperm, hname⟩ := exists_perm_other_first hn hs hlen
      obtain ⟨content, _, hcontent, hvalue⟩ := h _ hperm
      rw [leavesContent_object_iff (nulFree_of_perm hz hperm), adopted_of_ne hname] at hcontent
      rw [← hvalue s hs]
      exact Or.inr hcontent.symm
  · intro h members' hperm
    by_cases hmember : ∃ s, (cstr "date_time_format", .string s) ∈ members
    · obtain ⟨s, hs⟩ := hmember
      refine ⟨s, ?_, ?_, fun t ht => value_unique hn hs ht⟩
      · exact (leavesContent_object_iff hz s).mpr (content_of_member hn hs (h s hs) (.refl _))
      · exact (leavesContent_object_iff (nulFree_of_perm hz hperm) s).mpr
          (content_of_member hn hs (h s hs) hperm)
    · have hnone (ms : List (CString × Json)) (hms : members.Perm ms) : adopted ms = none := by
        apply Option.eq_none_iff_forall_ne_some.mpr
        intro s hs
        exact hmember ⟨s, hms.mem_iff.mpr (mem_of_adopted hs)⟩
      refine ⟨d.format.text, ?_, ?_, fun t ht => absurd ⟨t, ht⟩ hmember⟩
      · rw [leavesContent_object_iff hz, hnone members (.refl _)]
        rfl
      · rw [leavesContent_object_iff (nulFree_of_perm hz hperm), hnone members' hperm]
        rfl

end

/-- The format that is in force anyway may stand before or behind another member. -/
theorem orderIndependent_iff_same : OrderIndependent
    [(cstr "id", .number 7), (cstr "date_time_format", .string (cstr "%F %T%z"))]
    initialFormat := by
  apply (orderIndependent_iff (by decide) rfl initialFormat).mpr
  intro s hs
  have heq : s = cstr "%F %T%z" := by simpa using hs
  exact Or.inr heq

/-- Behind another member the format is not found. -/
theorem not_orderIndependent_second :
    ¬ OrderIndependent [(cstr "date_time_format", .string (cstr "%T")), (cstr "id", .null)]
      initialFormat := by
  intro h
  obtain ⟨content, hfirst, hsecond, _⟩ := h _ (List.Perm.swap _ _ [])
  rw [leavesContent_object_iff rfl] at hfirst hsecond
  exact absurd (hfirst.trans hsecond.symm) (by decide)

end TuyaDaemon.Standalone
