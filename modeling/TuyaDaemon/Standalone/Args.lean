import TuyaDaemon.CMemory

/-!
# args.c of the stand-alone daemon, and the gate at the start of main

`argp_parse` is glibc's: it calls `parse_opt` for every option and positional argument in
order, then once more for the end of the arguments. At the end `ARGP_ERR_UNKNOWN` only says that
the key was not handled, so it is cleared; everywhere else it fails the parse.
-/

namespace TuyaDaemon.Standalone

set_option autoImplicit false

structure Args where
  deviceId : Option CString
  deviceSecret : Option CString
  productId : Option CString
  becomeDaemon : Bool
  deriving DecidableEq, Repr

inductive Key where
  | i
  | s
  | p
  | d
  | argpKeyArg
  | argpKeyArgs
  | argpKeyNoArgs
  | argpKeyEnd
  | other (key : Int)
  deriving DecidableEq, Repr

def argpErrUnknown : Int := 7

/-- The input of the parser and what has been printed to standard error. -/
structure ArgpState where
  input : Args
  stderr : List CString
  deriving DecidableEq, Repr

def ArgpState.print (st : ArgpState) (s : CString) : ArgpState :=
  { st with stderr := st.stderr ++ [s] }

def programName : CString := cstr "tuya_daemon"

def printHelpMsg (st : ArgpState) : ArgpState :=
  st.print (cstr "Try `" ++ programName ++ cstr " --help' or `" ++ programName ++
    cstr " --usage' for more information.")

def parseOpt (key : Key) (arg : Option CString) (st : ArgpState) : Int × ArgpState :=
  match key with
  | .i => (0, { st with input := { st.input with deviceId := arg } })
  | .s => (0, { st with input := { st.input with deviceSecret := arg } })
  | .p => (0, { st with input := { st.input with productId := arg } })
  | .d => (0, { st with input := { st.input with becomeDaemon := true } })
  | .argpKeyArg =>
    (argpErrUnknown, st.print (cstr "Unrecognized argument: '" ++ arg.getD [] ++
      cstr "'\nYou can see available options by passing --help\n"))
  | .argpKeyEnd =>
    if st.input.deviceId = none then
      (argpErrUnknown,
        printHelpMsg (st.print (cstr "Missing required program option --dev-id\n")))
    else if st.input.deviceSecret = none then
      (argpErrUnknown,
        printHelpMsg (st.print (cstr "Missing required program option --dev-secret")))
    else if st.input.productId = none then
      (argpErrUnknown,
        printHelpMsg (st.print (cstr "Missing required program option --product-id")))
    else (0, st) -- falls through to ARGP_KEY_NO_ARGS
  | .argpKeyNoArgs => (0, st)
  | _ => (argpErrUnknown, st)

inductive ArgvItem where
  | i (arg : CString)
  | s (arg : CString)
  | p (arg : CString)
  | d
  | positional (arg : CString)
  deriving DecidableEq, Repr

def ArgvItem.isPositional : ArgvItem → Bool
  | positional _ => true
  | _ => false

def parseItem (item : ArgvItem) (st : ArgpState) : Int × ArgpState :=
  match item with
  | .i arg => parseOpt .i (some arg) st
  | .s arg => parseOpt .s (some arg) st
  | .p arg => parseOpt .p (some arg) st
  | .d => parseOpt .d none st
  | .positional arg =>
    let (err, st) := parseOpt .argpKeyArg (some arg) st
    if err = argpErrUnknown then parseOpt .argpKeyArgs none st else (err, st)

def parseItems : List ArgvItem → ArgpState → Int × ArgpState
  | [], st => (0, st)
  | item :: items, st =>
    let (err, st) := parseItem item st
    if err ≠ 0 then (err, st) else parseItems items st

/-- A call for `ARGP_KEY_NO_ARGS` or `ARGP_KEY_END`. -/
def parseFinal (key : Key) (st : ArgpState) : Int × ArgpState :=
  let (err, st) := parseOpt key none st
  (if err = argpErrUnknown then 0 else err, st)

def argpParse (argv : List ArgvItem) (st : ArgpState) : Int × ArgpState :=
  let (err, st) := parseItems argv st
  if err ≠ 0 then (err, st)
  else
    let (err, st) := if argv.any (·.isPositional) then (0, st) else parseFinal .argpKeyNoArgs st
    if err ≠ 0 then (err, st) else parseFinal .argpKeyEnd st

/-- The beginning of `main`: the arguments it continues with, or `none` when it stops. -/
def parseArguments (argv : List ArgvItem) : Option Args :=
  let (err, st) := argpParse argv ⟨⟨none, none, none, false⟩, []⟩
  if err ≠ 0 then none else some st.input

def ArgvItem.i? : ArgvItem → Option CString
  | i arg => some arg
  | _ => none

def ArgvItem.s? : ArgvItem → Option CString
  | s arg => some arg
  | _ => none

def ArgvItem.p? : ArgvItem → Option CString
  | p arg => some arg
  | _ => none

def lastArg (option : ArgvItem → Option CString) (argv : List ArgvItem) : Option CString :=
  (argv.filterMap option).getLast?

/-- What the argument vector gives, on top of what is there. -/
def given (argv : List ArgvItem) (a : Args) : Args where
  deviceId := (lastArg ArgvItem.i? argv).or a.deviceId
  deviceSecret := (lastArg ArgvItem.s? argv).or a.deviceSecret
  productId := (lastArg ArgvItem.p? argv).or a.productId
  becomeDaemon := argv.contains .d || a.becomeDaemon

theorem lastArg_cons (option : ArgvItem → Option CString) (item : ArgvItem)
    (argv : List ArgvItem) :
    lastArg option (item :: argv) = (lastArg option argv).or (option item) := by
  unfold lastArg
  cases h : option item with
  | none => simp [h]
  | some arg => simp [h, List.getLast?_cons, Option.or_some]

theorem lastArg_isSome_iff (option : ArgvItem → Option CString) (argv : List ArgvItem) :
    (lastArg option argv).isSome = true ↔ ∃ item ∈ argv, (option item).isSome = true := by
  induction argv with
  | nil => simp [lastArg]
  | cons item argv ih =>
    rw [lastArg_cons, Option.isSome_or, Bool.or_eq_true, ih, List.exists_mem_cons_iff, or_comm]

theorem parseItems_of_options {argv : List ArgvItem} (h : ∀ item ∈ argv, item.isPositional = false)
    (st : ArgpState) : parseItems argv st = (0, { st with input := given argv st.input }) := by
  induction argv generalizing st with
  | nil => simp [parseItems, given, lastArg]
  | cons item argv ih =>
    have htail := ih (fun x hx => h x (List.mem_cons_of_mem _ hx))
    have hhead := h item List.mem_cons_self
    cases item with
    | positional arg => cases hhead
    | _ =>
      simp [parseItems, parseItem, parseOpt, htail, given, lastArg_cons, ArgvItem.i?,
        ArgvItem.s?, ArgvItem.p?]

theorem parseItems_of_positional {argv : List ArgvItem}
    (h : ∃ item ∈ argv, item.isPositional = true) (st : ArgpState) :
    (parseItems argv st).1 ≠ 0 := by
  induction argv generalizing st with
  | nil => simp at h
  | cons item argv ih =>
    cases item with
    | positional arg => simp [parseItems, parseItem, parseOpt, argpErrUnknown]
    | _ =>
      have htail : ∃ item ∈ argv, item.isPositional = true := by
        simpa [ArgvItem.isPositional] using h
      simp [parseItems, parseItem, parseOpt, ih htail]

/-- At the end of the arguments the parser complains or not; it changes nothing. -/
theorem parseOpt_argpKeyEnd (arg : Option CString) (st : ArgpState) :
    ((parseOpt .argpKeyEnd arg st).1 = 0 ∨ (parseOpt .argpKeyEnd arg st).1 = argpErrUnknown) ∧
      (parseOpt .argpKeyEnd arg st).2.input = st.input := by
  simp only [parseOpt]
  split
  · exact ⟨Or.inr rfl, rfl⟩
  · split
    · exact ⟨Or.inr rfl, rfl⟩
    · split
      · exact ⟨Or.inr rfl, rfl⟩
      · exact ⟨Or.inl rfl, rfl⟩

theorem parseFinal_argpKeyEnd (st : ArgpState) :
    (parseFinal .argpKeyEnd st).1 = 0 ∧ (parseFinal .argpKeyEnd st).2.input = st.input := by
  obtain ⟨herr, hinput⟩ := parseOpt_argpKeyEnd none st
  refine ⟨?_, hinput⟩
  rcases herr with h | h <;> simp [parseFinal, h]

/-- Missing options are reported, but `main` continues without them. -/
theorem parseArguments_eq (argv : List ArgvItem) : parseArguments argv =
    if argv.any (·.isPositional) then none else some (given argv ⟨none, none, none, false⟩) := by
  unfold parseArguments argpParse
  cases hpos : argv.any (·.isPositional) with
  | true =>
    have herr := parseItems_of_positional (List.any_eq_true.mp hpos)
      ⟨⟨none, none, none, false⟩, []⟩
    simp [herr]
  | false =>
    have hall : ∀ item ∈ argv, item.isPositional = false := by simpa using hpos
    have hno (st : ArgpState) : parseFinal .argpKeyNoArgs st = (0, st) := rfl
    obtain ⟨herr, hinput⟩ :=
      parseFinal_argpKeyEnd ⟨given argv ⟨none, none, none, false⟩, []⟩
    simp only [parseItems_of_options hall, hno, ne_eq, not_true_eq_false, if_false,
      Bool.false_eq_true, herr, hinput]

/-- The gate: `main` continues only with all three options and no positional argument, and
then each field is the argument of the last occurrence of its option. -/
def GateHolds (argv : List ArgvItem) : Prop :=
  ∀ a, parseArguments argv = some a →
    (a.deviceId ≠ none ∧ a.deviceSecret ≠ none ∧ a.productId ≠ none ∧
      ∀ item ∈ argv, item.isPositional = false) ∧
    a.deviceId = lastArg ArgvItem.i? argv ∧ a.deviceSecret = lastArg ArgvItem.s? argv ∧
      a.productId = lastArg ArgvItem.p? argv

def Occurs (option : ArgvItem → Option CString) (argv : List ArgvItem) : Prop :=
  ∃ item ∈ argv, (option item).isSome = true

theorem lastArg_ne_none_iff (option : ArgvItem → Option CString) (argv : List ArgvItem) :
    lastArg option argv ≠ none ↔ Occurs option argv := by
  rw [Option.ne_none_iff_isSome, lastArg_isSome_iff]
  rfl

/-- The gate holds of an argument vector exactly when it has a positional argument, which
stops `main`, or leaves nothing to check. -/
theorem gateHolds_iff (argv : List ArgvItem) : GateHolds argv ↔
    (∃ item ∈ argv, item.isPositional = true) ∨
      (Occurs ArgvItem.i? argv ∧ Occurs ArgvItem.s? argv ∧ Occurs ArgvItem.p? argv) := by
  simp only [GateHolds, parseArguments_eq, ← lastArg_ne_none_iff]
  cases hpos : argv.any (·.isPositional) with
  | true =>
    have hex : ∃ item ∈ argv, item.isPositional = true := List.any_eq_true.mp hpos
    simp [hex]
  | false =>
    have hall : ∀ item ∈ argv, item.isPositional = false := by simpa using hpos
    have hno : ¬ ∃ item ∈ argv, item.isPositional = true := by
      intro ⟨item, hmem, hitem⟩
      rw [hall item hmem] at hitem
      cases hitem
    simp only [Bool.false_eq_true, if_false, Option.some.injEq, forall_eq', hno, false_or, given,
      Option.or_none, and_true]
    exact ⟨fun h => ⟨h.1, h.2.1, h.2.2.1⟩, fun h => ⟨h.1, h.2.1, h.2.2, hall⟩⟩

/-- With no arguments at all the parse succeeds and the three fields are NULL. -/
theorem not_gateHolds_nil : ¬ GateHolds [] := by
  intro h
  exact (h ⟨none, none, none, false⟩ (by decide)).1.1 rfl

end TuyaDaemon.Standalone
