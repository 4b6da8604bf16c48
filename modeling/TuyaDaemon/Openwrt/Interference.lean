import TuyaDaemon.Openwrt.Requests

/-!
# What the requests of an action message depend on

`Json.member` is the lookup of the library on values: the first member whose name
agrees up to case. A parse tree represents its value wherever its strings lie, so the
requests are a function of the three lookups and of nothing else in the message.
-/

namespace TuyaDaemon

set_option autoImplicit false

namespace Json

def firstNamed (name : CString) (members : List (CString × Json)) : Option Json :=
  (members.find? fun m => CJson.caseInsensitiveEq name m.1).map Prod.snd

def member (name : CString) : Json → Option Json
  | .object members => firstNamed name members
  | _ => none

end Json

namespace CJson

/-- `item` is the tree of `value`, built somewhere in the heap under some name. -/
def Represents (item : Option CJson) (value : Option Json) : Prop :=
  ∃ name next, item = value.map fun j => (build name next j).1

theorem find_buildMembers (key : CString) (next : Nat) (ms : List (CString × Json)) :
    Represents ((buildMembers next ms).1.find? (isNamed key)) (Json.firstNamed key ms) := by
  induction ms generalizing next with
  | nil => exact ⟨none, 0, rfl⟩
  | cons m ms ih =>
    obtain ⟨name, j⟩ := m
    have hname : isNamed key (build (some ⟨next, name⟩) (next + 1) j).1 =
        caseInsensitiveEq key name := by
      simp only [isNamed, build_string]
    cases hm : caseInsensitiveEq key name with
    | true =>
      refine ⟨some ⟨next, name⟩, next + 1, ?_⟩
      simp [buildMembers, Json.firstNamed, hname, hm]
    | false =>
      obtain ⟨nm, k, hrest⟩ := ih (build (some ⟨next, name⟩) (next + 1) j).2
      refine ⟨nm, k, ?_⟩
      simp only [Json.firstNamed] at hrest
      simp [buildMembers, Json.firstNamed, hname, hm, hrest]

variable {item : Option CJson} {value : Option Json}

theorem Represents.getObjectItem (h : Represents item value) (key : CString) :
    Represents (CJson.getObjectItem item key) (value.bind (Json.member key)) := by
  obtain ⟨name, next, rfl⟩ := h
  rcases value with _ | j
  · exact ⟨none, 0, rfl⟩
  · cases j with
    | object ms =>
      have hfind := find_buildMembers key next ms
      simpa [CJson.getObjectItem, build, Json.member] using hfind
    | bool b => cases b <;> exact ⟨none, 0, rfl⟩
    | _ => exact ⟨none, 0, rfl⟩

theorem represents_parse (decode : Decoder) (next : Nat) (text : Option CString) :
    Represents (parse decode next text).1 (text.bind decode) := by
  refine ⟨none, next, ?_⟩
  unfold parse
  cases text.bind decode <;> rfl

end CJson

namespace Openwrt

theorem stringIs_of_represents {item : Option CJson} {value : Option Json}
    (h : CJson.Represents item value) (text : CString) :
    StringIs item text ↔ value = some (.string text) := by
  obtain ⟨name, next, rfl⟩ := h
  rcases value with _ | j
  · simp [StringIs, CJson.getStringValue]
  · cases j with
    | bool b => cases b <;> simp [StringIs, CJson.getStringValue, CJson.build]
    | _ => simp [StringIs, CJson.getStringValue, CJson.build]

theorem numberIs_of_represents {item : Option CJson} {value : Option Json}
    (h : CJson.Represents item value) (q : Rat) :
    NumberIs item q ↔ value = some (.number q) := by
  obtain ⟨name, next, rfl⟩ := h
  rcases value with _ | j
  · simp [NumberIs]
  · cases j with
    | bool b => cases b <;> simp [NumberIs, CJson.build]
    | _ => simp [NumberIs, CJson.build]

/-- The three values that `execute_action` looks up. -/
def lookedUp (value : Option Json) : Option Json × Option Json × Option Json :=
  let params := value.bind (Json.member (cstr "inputParams"))
  (value.bind (Json.member (cstr "actionCode")), params.bind (Json.member (cstr "device")),
    params.bind (Json.member (cstr "pin")))

theorem requested_iff_lookedUp {full : Option CJson} {value : Option Json}
    (h : CJson.Represents full value) (undefinedCast : Rat → UInt32) (turnOn : Bool)
    (device : CString) (pin : UInt32) :
    Requested undefinedCast full (.controlDevicePin turnOn device pin) ↔
      (lookedUp value).1 =
        some (.string (if turnOn then cstr "turn_on_pin" else cstr "turn_off_pin")) ∧
      (lookedUp value).2.1 = some (.string device) ∧
      ∃ q, (lookedUp value).2.2 = some (.number q) ∧ pin = castUint32 undefinedCast q := by
  have haction := h.getObjectItem (cstr "actionCode")
  have hparams := h.getObjectItem (cstr "inputParams")
  have hdevice := hparams.getObjectItem (cstr "device")
  have hpin := hparams.getObjectItem (cstr "pin")
  simp only [Requested, lookedUp, stringIs_of_represents haction]
  refine and_congr_right fun _ => ?_
  rw [← stringIs_of_represents hdevice]
  simp only [← numberIs_of_represents hpin]
  constructor
  · rintro ⟨params, hp, hdev, hq⟩
    rw [hp]
    exact ⟨hdev, hq⟩
  · rintro ⟨hdev, hq⟩
    -- a member was found, so there is something it was found in
    cases hp : CJson.getObjectItem full (cstr "inputParams") with
    | none =>
      obtain ⟨s, hs, _⟩ := hdev
      rw [hp] at hs
      cases hs
    | some params =>
      rw [hp] at hdev hq
      exact ⟨params, rfl, hdev, hq⟩

theorem requested_congr {full full' : Option CJson} {value value' : Option Json}
    (h : CJson.Represents full value) (h' : CJson.Represents full' value')
    (hagree : lookedUp value = lookedUp value') (undefinedCast : Rat → UInt32) (s : Sender) :
    Requested undefinedCast full s ↔ Requested undefinedCast full' s := by
  cases s with
  | sendMemoryInfo => exact Iff.rfl
  | sendConnectedDevicesList =>
    have haction := congrArg Prod.fst hagree
    simp only [lookedUp] at haction
    simp only [Requested, stringIs_of_represents (h.getObjectItem _),
      stringIs_of_represents (h'.getObjectItem _), haction]
  | controlDevicePin turnOn device pin =>
    rw [requested_iff_lookedUp h, requested_iff_lookedUp h', hagree]

section
variable {Attr Data : Type} (lib : Blobmsg Attr Data) (env : ActionEnv Attr)
  (ctx : Option UbusContext)

/-- The requests that `execute_action` makes for a message. -/
def requestsFor (dataString : Option CString) (next : Nat) : Except Fault (List Request) := do
  let (_, es) ← executeAction lib env ctx dataString next
  return requests es

/-- Messages that ask for the same sender lead to the same requests. -/
theorem requestsFor_congr {x y : Option CString} {next next' : Nat}
    (h : ∀ s, Requested env.undefinedCast (CJson.parse env.decode next x).1 s ↔
      Requested env.undefinedCast (CJson.parse env.decode next' y).1 s) :
    requestsFor lib env ctx x next = requestsFor lib env ctx y next' := by
  obtain ⟨n, es, op, hrun, hreqs, hop⟩ := executeAction_requests lib env ctx x next
  obtain ⟨n', es', op', hrun', hreqs', hop'⟩ := executeAction_requests lib env ctx y next'
  have hsame : op = op' := by
    apply Option.ext
    intro s
    rw [hop, hop', h]
  have heq : requests es = requests es' := by rw [hreqs, hreqs', hsame]
  simp only [requestsFor, hrun, hrun', bind, Except.bind, heq]

/-- Whatever else they hold, wherever their trees lie: two messages with the same
`actionCode`, `device` and `pin`, as the lookup finds them, lead to the same requests. -/
theorem requestsFor_eq_of_lookedUp {x y : Option CString}
    (h : lookedUp (x.bind env.decode) = lookedUp (y.bind env.decode)) (next next' : Nat) :
    requestsFor lib env ctx x next = requestsFor lib env ctx y next' := by
  apply requestsFor_congr
  intro s
  exact requested_congr (CJson.represents_parse _ _ _) (CJson.represents_parse _ _ _) h _ s

end

def listText : CString := cstr "\x7b\"actionCode\":\"list_devices\"\x7d"

def extraText : CString := cstr "\x7b\"actionCode\":\"list_devices\",\"id\":null\x7d"

def shadowedText : CString :=
  cstr "\x7b\"ACTIONCODE\":null,\"actionCode\":\"list_devices\"\x7d"

def listAction : CString × Json := (cstr "actionCode", .string (cstr "list_devices"))

/-- The same command three times: alone, with a member behind it, and behind another spelling
of its name. -/
def listing : ActionEnv Blob where
  decode := .ofTable [(listText, .object [listAction]),
    (extraText, .object [listAction, (cstr "id", .null)]),
    (shadowedText, .object [(cstr "ACTIONCODE", .null), listAction])] (by decide)
  undefinedCast _ := 0
  ubus := Blob.answering 0 [] ⟨false, 0, []⟩

theorem listing_listText : listing.decode listText = some (.object [listAction]) := by
  simp [listing, Decoder.ofTable]

theorem listing_extraText :
    listing.decode extraText = some (.object [listAction, (cstr "id", .null)]) := by
  have hlist : (extraText == listText) = false := by decide
  simp [listing, Decoder.ofTable, List.lookup_cons, hlist]

theorem listing_shadowedText :
    listing.decode shadowedText = some (.object [(cstr "ACTIONCODE", .null), listAction]) := by
  have hlist : (shadowedText == listText) = false := by decide
  have hextra : (shadowedText == extraText) = false := by decide
  simp [listing, Decoder.ofTable, List.lookup_cons, hlist, hextra]

theorem requestsFor_eq_of_lookedUp_list :
    requestsFor Blob.blobmsg listing none (some listText) 1 =
      requestsFor Blob.blobmsg listing none (some extraText) 7 := by
  refine requestsFor_eq_of_lookedUp Blob.blobmsg listing none ?_ 1 7
  rw [Option.bind_some, Option.bind_some, listing_listText, listing_extraText]
  rfl

/-! Names compared exactly. -/

/-- The members of the arguments that a pin command is made of. -/
def ArgumentsAgree : Option Json → Option Json → Prop
  | some (.object ps), some (.object qs) =>
    (ps.map Prod.fst).Nodup ∧ (qs.map Prod.fst).Nodup ∧
      ps.lookup (cstr "device") = qs.lookup (cstr "device") ∧
      ps.lookup (cstr "pin") = qs.lookup (cstr "pin")
  | v, w => v = w

/-- Two objects that differ at most in members with other names. -/
structure MembersAgree (a b : List (CString × Json)) : Prop where
  distinct : (a.map Prod.fst).Nodup ∧ (b.map Prod.fst).Nodup
  actionCode : a.lookup (cstr "actionCode") = b.lookup (cstr "actionCode")
  inputParams : ArgumentsAgree (a.lookup (cstr "inputParams")) (b.lookup (cstr "inputParams"))

/-- No name is the given one in another spelling. -/
def NoVariant (name : CString) (ms : List (CString × Json)) : Prop :=
  ∀ m ∈ ms, CJson.caseInsensitiveEq name m.1 = true → m.1 = name

structure Unambiguous (ms : List (CString × Json)) : Prop where
  actionCode : NoVariant (cstr "actionCode") ms
  inputParams : NoVariant (cstr "inputParams") ms
  device : ∀ ps, ms.lookup (cstr "inputParams") = some (.object ps) → NoVariant (cstr "device") ps
  pin : ∀ ps, ms.lookup (cstr "inputParams") = some (.object ps) → NoVariant (cstr "pin") ps

theorem firstNamed_eq_lookup {name : CString} {ms : List (CString × Json)}
    (h : NoVariant name ms) : Json.firstNamed name ms = ms.lookup name := by
  induction ms with
  | nil => rfl
  | cons m ms ih =>
    obtain ⟨key, j⟩ := m
    have hrest : NoVariant name ms := fun m hm => h m (List.mem_cons_of_mem _ hm)
    by_cases hkey : key = name
    · subst hkey
      simp [Json.firstNamed, CJson.caseInsensitiveEq]
    · have hne : CJson.caseInsensitiveEq name key = false := by
        by_contra hcase
        rw [Bool.not_eq_false] at hcase
        exact hkey (h (key, j) List.mem_cons_self hcase)
      have hbeq : (name == key) = false := beq_false_of_ne (Ne.symm hkey)
      rw [List.lookup_cons, hbeq, ← ih hrest]
      simp [Json.firstNamed, hne]

/-- Where no name comes in two spellings, exact agreement is agreement of the lookups. -/
theorem MembersAgree.lookedUp {a b : List (CString × Json)} (h : MembersAgree a b)
    (ha : Unambiguous a) (hb : Unambiguous b) :
    lookedUp (some (.object a)) = lookedUp (some (.object b)) := by
  have hargs := h.inputParams
  simp only [Openwrt.lookedUp, Option.bind_some, Json.member, firstNamed_eq_lookup ha.actionCode,
    firstNamed_eq_lookup hb.actionCode, firstNamed_eq_lookup ha.inputParams,
    firstNamed_eq_lookup hb.inputParams, h.actionCode]
  unfold ArgumentsAgree at hargs
  split at hargs
  · rename_i ps qs hps hqs
    obtain ⟨_, _, hdevice, hpin⟩ := hargs
    rw [hps, hqs]
    simp only [Option.bind_some, Json.member, firstNamed_eq_lookup (ha.device ps hps),
      firstNamed_eq_lookup (hb.device qs hqs), firstNamed_eq_lookup (ha.pin ps hps),
      firstNamed_eq_lookup (hb.pin qs hqs), hdevice, hpin]
  · rw [hargs]

section
variable {Attr Data : Type} (lib : Blobmsg Attr Data) (env : ActionEnv Attr)
  (ctx : Option UbusContext)

/-- Where no name comes in two spellings, members with other names have no influence. -/
theorem requestsFor_eq_of_membersAgree {a b : List (CString × Json)} (h : MembersAgree a b)
    (ha : Unambiguous a) (hb : Unambiguous b) {x y : CString}
    (hx : env.decode x = some (.object a)) (hy : env.decode y = some (.object b))
    (next next' : Nat) :
    requestsFor lib env ctx (some x) next = requestsFor lib env ctx (some y) next' := by
  apply requestsFor_congr
  intro s
  have hax := CJson.represents_parse env.decode next (some x)
  have hby := CJson.represents_parse env.decode next' (some y)
  rw [Option.bind_some, hx] at hax
  rw [Option.bind_some, hy] at hby
  exact requested_congr hax hby (h.lookedUp ha hb) env.undefinedCast s

/-- Members with other names have no influence on what is requested. -/
def Uninfluenced : Prop :=
  ∀ a b, MembersAgree a b → ∀ x y, env.decode x = some (.object a) →
    env.decode y = some (.object b) → ∀ next next',
      requestsFor lib env ctx (some x) next = requestsFor lib env ctx (some y) next'

end

/-- A member ACTIONCODE in front of the other takes its place. -/
theorem not_uninfluenced_shadowed : ¬ Uninfluenced Blob.blobmsg listing none := by
  intro h
  have hcase : (cstr "actionCode" == cstr "ACTIONCODE") = false := by decide
  have hother : (cstr "inputParams" == cstr "ACTIONCODE") = false := by decide
  have hagree : MembersAgree [listAction] [(cstr "ACTIONCODE", .null), listAction] := by
    refine ⟨by decide, ?_, ?_⟩
    · simp only [List.lookup_cons, hcase]
    · simp only [List.lookup_cons, hother]
      rfl
  have hsame := h _ _ hagree _ _ listing_listText listing_shadowedText 1 1
  have hlist : requestsFor Blob.blobmsg listing none (some listText) 1 =
      .ok [(cstr "list_devices", none)] := by
    simp only [requestsFor, executeAction, CJson.parse, Option.bind_some, listing_listText]
    rfl
  have hnone : requestsFor Blob.blobmsg listing none (some shadowedText) 1 = .ok [] := by
    simp only [requestsFor, executeAction, CJson.parse, Option.bind_some, listing_shadowedText]
    rfl
  rw [hlist, hnone] at hsame
  cases hsame

end Openwrt
end TuyaDaemon
