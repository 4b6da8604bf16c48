import TuyaDaemon.CMemory

/-! The cJSON tree, with the fields that the daemons read. `next` and `prev` are the
order of `child`. `getObjectItem` is the library's documented lookup: the first
member whose name agrees up to case, and NULL for anything that is not an object.
The parser itself is not modelled: a `Decoder` is what it makes of a text, if it accepts it,
and `build` is the tree of that value. -/

namespace TuyaDaemon
set_option autoImplicit false

inductive CJsonType where
  | false
  | true
  | null
  | number
  | string
  | array
  | object
  deriving DecidableEq, Repr

structure CJson where
  type : CJsonType
  valuestring : Option HeapString
  valuedouble : Rat
  string : Option HeapString
  child : List CJson

inductive Json where
  | null
  | bool (b : Bool)
  | number (q : Rat)
  | string (s : CString)
  | array (elements : List Json)
  | object (members : List (CString × Json))

namespace Json

mutual
/-- No name and no string holds a NUL, so that C reads them to their ends. -/
def nulFree : Json → Bool
  | .null => true
  | .bool _ => true
  | .number _ => true
  | .string s => !s.contains 0
  | .array elements => nulFreeElements elements
  | .object members => nulFreeMembers members

def nulFreeElements : List Json → Bool
  | [] => true
  | j :: js => j.nulFree && nulFreeElements js

def nulFreeMembers : List (CString × Json) → Bool
  | [] => true
  | (name, j) :: ms => !name.contains 0 && j.nulFree && nulFreeMembers ms
end

theorem nulFreeMembers_iff (ms : List (CString × Json)) :
    nulFreeMembers ms = true ↔ ∀ m ∈ ms, m.1.contains 0 = false ∧ m.2.nulFree = true := by
  induction ms with
  | nil => simp [nulFreeMembers]
  | cons m ms ih => simp [nulFreeMembers, ih]

end Json

/-- What `cJSON_Parse` makes of a text: the value in its tree, or `none` where it returns NULL,
which it may also do for valid JSON. A string counts as far as C reads it. -/
structure Decoder where
  value : CString → Option Json
  nulFree : ∀ text j, value text = some j → j.nulFree = true

instance : CoeFun Decoder fun _ => CString → Option Json := ⟨Decoder.value⟩

/-- A decoder by its table, which accepts no other text. -/
def Decoder.ofTable (table : List (CString × Json))
    (h : (table.all fun entry => entry.2.nulFree) = true) : Decoder where
  value text := table.lookup text
  nulFree text j hj := by
    obtain ⟨xs, ys, rfl, _⟩ := List.lookup_eq_some_iff.mp hj
    exact List.all_eq_true.mp h (text, j) (List.mem_append_right xs List.mem_cons_self)

namespace CJson

def toLower (c : UInt8) : UInt8 := if 65 ≤ c ∧ c ≤ 90 then c + 32 else c

def caseInsensitiveEq (a b : CString) : Bool := a.map toLower == b.map toLower

def isNamed (name : CString) (c : CJson) : Bool :=
  match c.string with
  | none => Bool.false
  | some s => caseInsensitiveEq name s.text

def getObjectItem (object : Option CJson) (name : CString) : Option CJson :=
  match object with
  | none => none
  | some o => if o.type = .object then o.child.find? (isNamed name) else none

def getStringValue (item : Option CJson) : Option HeapString :=
  match item with
  | none => none
  | some i => if i.type = .string then i.valuestring else none

def isNumber (item : Option CJson) : Bool :=
  match item with
  | none => Bool.false
  | some i => i.type == .number

theorem getStringValue_isSome {item : Option CJson} {s : HeapString}
    (h : getStringValue item = some s) : item.isSome = Bool.true := by
  cases item with
  | none => cases h
  | some i => rfl

theorem isNumber_eq_true {item : Option CJson} (h : isNumber item = Bool.true) :
    ∃ i, item = some i ∧ i.type = .number := by
  cases item with
  | none => cases h
  | some i => exact ⟨i, rfl, eq_of_beq h⟩

mutual
/-- Every string that a tree owns, names and values. -/
def strings : CJson → List HeapString
  | ⟨_, valuestring, _, string, child⟩ =>
    string.toList ++ valuestring.toList ++ stringsOf child

def stringsOf : List CJson → List HeapString
  | [] => []
  | c :: cs => c.strings ++ stringsOf cs
end

mutual
/-- The tree of a value under a given name. Strings are allocated from `next` on; only
strings have a `valuestring`, only members of an object are named. -/
def build (name : Option HeapString) (next : Nat) : Json → CJson × Nat
  | .null => (⟨.null, none, 0, name, []⟩, next)
  | .bool b => (⟨if b then .true else .false, none, 0, name, []⟩, next)
  | .number q => (⟨.number, none, q, name, []⟩, next)
  | .string s => (⟨.string, some ⟨next, s⟩, 0, name, []⟩, next + 1)
  | .array elements =>
    let (child, next) := buildElements next elements
    (⟨.array, none, 0, name, child⟩, next)
  | .object members =>
    let (child, next) := buildMembers next members
    (⟨.object, none, 0, name, child⟩, next)

def buildElements (next : Nat) : List Json → List CJson × Nat
  | [] => ([], next)
  | j :: js =>
    let (c, next) := build none next j
    let (cs, next) := buildElements next js
    (c :: cs, next)

def buildMembers (next : Nat) : List (CString × Json) → List CJson × Nat
  | [] => ([], next)
  | (name, j) :: ms =>
    let (c, next) := build (some ⟨next, name⟩) (next + 1) j
    let (cs, next) := buildMembers next ms
    (c :: cs, next)
end

theorem build_string (name : Option HeapString) (next : Nat) (j : Json) :
    (build name next j).1.string = name := by cases j <;> simp [build]

mutual
/-- The strings of a tree lie at consecutive addresses, in the order of the tree. -/
theorem build_addrs (name : Option HeapString) (next : Nat) : ∀ j : Json,
    ∃ k, (build name next j).2 = next + k ∧
      (build name next j).1.strings.map HeapString.addr =
        name.toList.map HeapString.addr ++ List.range' next k
  | .null => ⟨0, rfl, by simp [build, strings, stringsOf]⟩
  | .bool _ => ⟨0, rfl, by simp [build, strings, stringsOf]⟩
  | .number _ => ⟨0, rfl, by simp [build, strings, stringsOf]⟩
  | .string _ => ⟨1, rfl, by simp [build, strings, stringsOf]⟩
  | .array elements => by
    obtain ⟨k, hnext, haddrs⟩ := buildElements_addrs next elements
    exact ⟨k, hnext, by simp [build, strings, haddrs]⟩
  | .object members => by
    obtain ⟨k, hnext, haddrs⟩ := buildMembers_addrs next members
    exact ⟨k, hnext, by simp [build, strings, haddrs]⟩

theorem buildElements_addrs (next : Nat) : ∀ js : List Json,
    ∃ k, (buildElements next js).2 = next + k ∧
      (stringsOf (buildElements next js).1).map HeapString.addr = List.range' next k
  | [] => ⟨0, rfl, rfl⟩
  | j :: js => by
    obtain ⟨k, hnext, haddrs⟩ := build_addrs none next j
    obtain ⟨l, hnext', haddrs'⟩ := buildElements_addrs (build none next j).2 js
    rw [hnext] at hnext' haddrs'
    refine ⟨k + l, ?_, ?_⟩
    · simp only [buildElements, hnext, hnext', Nat.add_assoc]
    · simp only [buildElements, stringsOf, List.map_append, haddrs, hnext, haddrs']
      simp [List.range'_append_1]

theorem buildMembers_addrs (next : Nat) : ∀ ms : List (CString × Json),
    ∃ k, (buildMembers next ms).2 = next + k ∧
      (stringsOf (buildMembers next ms).1).map HeapString.addr = List.range' next k
  | [] => ⟨0, rfl, rfl⟩
  | (name, j) :: ms => by
    obtain ⟨k, hnext, haddrs⟩ := build_addrs (some ⟨next, name⟩) (next + 1) j
    obtain ⟨l, hnext', haddrs'⟩ :=
      buildMembers_addrs (build (some ⟨next, name⟩) (next + 1) j).2 ms
    rw [hnext] at hnext' haddrs'
    refine ⟨1 + k + l, ?_, ?_⟩
    · simp only [buildMembers, hnext, hnext']
      omega
    · simp only [buildMembers, stringsOf, List.map_append, haddrs, hnext, haddrs']
      simp [← List.range'_append_1, Nat.add_assoc]
end

/-- `cJSON_Parse`: NULL for a NULL text and for one that it does not accept. -/
def parse (decode : Decoder) (next : Nat) (value : Option CString) :
    Option CJson × Nat :=
  match value.bind decode with
  | none => (none, next)
  | some j =>
    let (c, next) := build none next j
    (some c, next)

end CJson
end TuyaDaemon
