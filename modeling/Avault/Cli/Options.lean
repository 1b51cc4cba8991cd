import Avault.Cli.OneShot
import Avault.Foundation.Options
import Avault.Store.Gate

/-! The options of the commands. -/
namespace Avault.Cli
open Foundation
open Foundation.Options
open Store (parseU64 u64Max)

abbrev OsString := Bytes

def StoreSelection.parse (value : String) : Result StoreSelection :=
  match value with
  | "auto" => .ok .auto
  | "keychain" => .ok .keychain
  | "tpm" | "tpm2" => .ok .tpm
  | "file" => .ok .file
  | "file-passphrase" | "file+passphrase" | "passphrase" => .ok .filePassphrase
  | _ => bail "unknown store backend"

/-- An option with a value that may be given once. -/
def onceValued {σ : Type} (flag : String) (slot : Slot σ (Option String)) : Kind Error σ :=
  .once [.message (flag ++ " was provided more than once")] [.message (flag ++ " requires a value")] slot

/-- An option without a value that may be given once. -/
def onceToggled {σ : Type} (flag : String) (slot : Slot σ Bool) : Kind Error σ :=
  .flagged [.message (flag ++ " was provided more than once")] slot

/-! `seal` -/

structure SealOptions where
  name : String
  blindBox : Bool

/-- What the loop of `parse_seal_options` has seen. -/
structure SealSettings where
  name : Option String
  blindBox : Bool

inductive SealFlag
  | name
  | blindBox

def sealParts : Parts SealSettings SealFlag where
  Part
    | .name => Option String
    | .blindBox => Bool
  slot
    | .name => ⟨SealSettings.name,fun s name => { s with name },rfl⟩
    | .blindBox => ⟨SealSettings.blindBox,fun s blindBox => { s with blindBox },rfl⟩
  get_put_of_ne {s i x j} h := by cases i <;> cases j <;> first | rfl | exact absurd rfl h
  ext {s t} h := by
    obtain ⟨name,blindBox⟩ := s
    obtain ⟨rfl : name = t.name,rfl : blindBox = t.blindBox⟩ := And.intro (h .name) (h .blindBox)
    rfl

def sealGrammar : Grammar Error SealSettings where
  option
    | "--name" => some (onceValued "--name" (sealParts.slot .name))
    | "--blind-box" => some (onceToggled "--blind-box" (sealParts.slot .blindBox))
    | _ => none
  notText := [.message "seal options must be valid UTF-8"]
  unknown other := [.message ("unknown seal option: " ++ other)]

def parseSealOptions (args : List OsString) : Result SealOptions := do
  let s ← sealGrammar.read ⟨none,false⟩ args
  let name ← orError "--name is required" s.name
  return ⟨name,s.blindBox⟩

/-! `deliver run` -/

structure DeliverRunOptions where
  name : String
  envName : String
  envelopeFile : Option String

structure DeliverRunSettings where
  name : Option String
  envName : Option String
  envelopeFile : Option String

inductive DeliverRunFlag
  | name
  | envName
  | envelopeFile

def deliverRunParts : Parts DeliverRunSettings DeliverRunFlag where
  Part _ := Option String
  slot
    | .name => ⟨DeliverRunSettings.name,fun s name => { s with name },rfl⟩
    | .envName => ⟨DeliverRunSettings.envName,fun s envName => { s with envName },rfl⟩
    | .envelopeFile => ⟨DeliverRunSettings.envelopeFile,fun s envelopeFile => { s with envelopeFile },rfl⟩
  get_put_of_ne {s i x j} h := by cases i <;> cases j <;> first | rfl | exact absurd rfl h
  ext {s t} h := by
    obtain ⟨name,envName,envelopeFile⟩ := s
    obtain ⟨rfl : name = t.name,rfl : envName = t.envName⟩ := And.intro (h .name) (h .envName)
    obtain rfl : envelopeFile = t.envelopeFile := h .envelopeFile
    rfl

def deliverRunGrammar : Grammar Error DeliverRunSettings where
  option
    | "--name" => some (onceValued "--name" (deliverRunParts.slot .name))
    | "--env" => some (onceValued "--env" (deliverRunParts.slot .envName))
    | "--envelope-file" => some (onceValued "--envelope-file" (deliverRunParts.slot .envelopeFile))
    | _ => none
  notText := [.message "deliver run options must be valid UTF-8"]
  unknown other := [.message ("unknown deliver run option: " ++ other)]

def parseDeliverRunOptions (args : List OsString) : Result DeliverRunOptions := do
  let s ← deliverRunGrammar.read ⟨none,none,none⟩ args
  let name ← orError "--name is required" s.name
  let envName ← orError "--env is required" s.envName
  return ⟨name,envName,s.envelopeFile⟩

/-! `agent` -/

def defaultAgentIdleTimeoutSecs : ℕ := 300

structure AgentOptions where
  socketPath : OsString
  idleTimeoutSecs : ℕ
  store : StoreSelection
  unlock : Bool

structure AgentSettings where
  socketPath : Option String
  idleTimeoutSecs : ℕ
  store : StoreSelection
  unlock : Bool

inductive AgentFlag
  | socketPath
  | idleTimeoutSecs
  | store
  | unlock

def agentParts : Parts AgentSettings AgentFlag where
  Part
    | .socketPath => Option String
    | .idleTimeoutSecs => ℕ
    | .store => StoreSelection
    | .unlock => Bool
  slot
    | .socketPath => ⟨AgentSettings.socketPath,fun s socketPath => { s with socketPath },rfl⟩
    | .idleTimeoutSecs => ⟨AgentSettings.idleTimeoutSecs,fun s idleTimeoutSecs => { s with idleTimeoutSecs },rfl⟩
    | .store => ⟨AgentSettings.store,fun s store => { s with store },rfl⟩
    | .unlock => ⟨AgentSettings.unlock,fun s unlock => { s with unlock },rfl⟩
  get_put_of_ne {s i x j} h := by cases i <;> cases j <;> first | rfl | exact absurd rfl h
  ext {s t} h := by
    obtain ⟨socketPath,idleTimeoutSecs,store,unlock⟩ := s
    obtain ⟨rfl : socketPath = t.socketPath,rfl : idleTimeoutSecs = t.idleTimeoutSecs⟩ :=
      And.intro (h .socketPath) (h .idleTimeoutSecs)
    obtain ⟨rfl : store = t.store,rfl : unlock = t.unlock⟩ := And.intro (h .store) (h .unlock)
    rfl

/-- Whether the value of the digits leaves the range of `u64` before a bad one is reached. -/
def overflows (value : ℕ) : List Char → Bool
  | [] => false
  | c::rest =>
    let next := 10*value + (c.toNat - '0'.toNat)
    c.isDigit && (decide (u64Max < next) || overflows next rest)

/-- The text of a `ParseIntError`. -/
def parseIntErrorText (text : String) : String :=
  let digits := if text.toList.head? = some '+' then text.toList.tail else text.toList
  if text = "" then "cannot parse integer from empty string"
  else if overflows 0 digits = true then "number too large to fit in target type"
  else "invalid digit found in string"

/-- Where there are only digits, it is the number itself that is too large. -/
theorem overflows_digits {digits : List Char} {value : ℕ} (h : digits.all Char.isDigit = true) (hvalue : value ≤ u64Max) :
    overflows value digits = true ↔ u64Max < Nat.ofDigitChars 10 digits value := by
  induction digits generalizing value with
  | nil => simp [overflows,Nat.ofDigitChars,hvalue]
  | cons c rest ih =>
    obtain ⟨hc,hrest⟩ := Bool.and_eq_true_iff.mp h
    simp only [overflows,hc,Bool.true_and,Bool.or_eq_true,decide_eq_true_eq,Nat.ofDigitChars_cons]
    by_cases hnext : u64Max < 10*value + (c.toNat - '0'.toNat)
    · refine iff_of_true (.inl hnext) (lt_of_lt_of_le hnext ?_)
      rw [Nat.ofDigitChars_eq_ofDigitChars_zero]
      exact le_add_of_le_of_nonneg (Nat.le_mul_of_pos_left _ (Nat.pow_pos (by decide))) (Nat.zero_le _)
    · rw [or_iff_right hnext]
      exact ih hrest (not_lt.mp hnext)

example : parseIntErrorText "99999999999999999999x" = "number too large to fit in target type" := by decide

def parseIdleTimeout (value : String) : Result ℕ := do
  let secs ← context "--idle-timeout-secs must be an integer" (orError (parseIntErrorText value) (parseU64 value))
  bailIf (secs = 0) "--idle-timeout-secs must be positive"
  return secs

def agentGrammar : Grammar Error AgentSettings where
  option
    | "--socket" => some (onceValued "--socket" (agentParts.slot .socketPath))
    | "--idle-timeout-secs" => some (.latest [.message "--idle-timeout-secs requires a value"] parseIdleTimeout
        (agentParts.slot .idleTimeoutSecs))
    | "--store" => some (.latest [.message "--store requires a value"] StoreSelection.parse (agentParts.slot .store))
    | "--unlock" => some (onceToggled "--unlock" (agentParts.slot .unlock))
    | _ => none
  notText := [.message "agent options must be valid UTF-8"]
  unknown other := [.message ("unknown agent option: " ++ other)]

/-- `PathBuf::join` with a relative component. -/
def joinPath (path : OsString) (component : String) : OsString :=
  if path = [] ∨ path.getLast? = some 47 then path ++ utf8 component else path ++ 47::utf8 component

/-- `user_home_dir`, for the `HOME` that is set or not. -/
def userHomeDir (home : Option OsString) : Result OsString := orError "HOME is not set" home

def defaultAgentSocketPath (home : Option OsString) : Result OsString := do
  let home ← userHomeDir home
  return joinPath (joinPath (joinPath home ".avibe") "run") "avault.sock"

def parseAgentOptions (home : Option OsString) (args : List OsString) (config : StoreSelection) : Result AgentOptions := do
  let s ← agentGrammar.read ⟨none,defaultAgentIdleTimeoutSecs,config,false⟩ args
  bailIf (s.unlock = true ∧ s.store ≠ .filePassphrase) "--unlock requires --store file-passphrase"
  -- the default is worked out also where a socket is given
  let socketPath ← defaultAgentSocketPath home
  return ⟨(s.socketPath.map utf8).getD socketPath,s.idleTimeoutSecs,s.store,s.unlock⟩

/-! The options before the command. -/

/-- `env::var`. -/
inductive EnvVar
  | value (text : String)
  | notPresent
  | notUnicode

def envStore : EnvVar → Result StoreSelection
  | .value text => StoreSelection.parse text
  | .notPresent => .ok .auto
  | .notUnicode => bail "AVAULT_STORE must be valid UTF-8"

/-- The loop of `parse_global_options`, which leaves the arguments from the first other one on. -/
def readGlobalOptions (store : StoreSelection) : List OsString → Result (StoreSelection × List OsString)
  | [] => .ok (store,[])
  | arg::rest =>
    if fromUtf8 arg = some "--store" then
      match rest with
      | [] => bail "--store requires a value"
      | value::rest =>
        match fromUtf8 value with
        | none => bail "--store requires a value"
        | some value =>
          match StoreSelection.parse value with
          | .error e => .error e
          | .ok store => readGlobalOptions store rest
    else .ok (store,arg::rest)

def parseGlobalOptions (storeVar : EnvVar) (args : List OsString) : Result (StoreSelection × List OsString) := do
  let store ← envStore storeVar
  readGlobalOptions store args

section Exact

def sealSeparate : Separate sealGrammar sealParts where
  text
    | .name => "--name"
    | .blindBox => "--blind-box"
  text_injective := by
    rintro (_ | _) (_ | _) h <;> first | rfl | exact absurd h (by decide)
  kind
    | .name => onceValued "--name" (sealParts.slot .name)
    | .blindBox => onceToggled "--blind-box" (sealParts.slot .blindBox)
  option_eq_some {flag k} := by
    constructor
    · intro h
      simp only [sealGrammar] at h
      split at h
      · exact ⟨.name,rfl,(Option.some.inj h).symm⟩
      · exact ⟨.blindBox,rfl,(Option.some.inj h).symm⟩
      · cases h
    · rintro ⟨i,rfl,rfl⟩
      cases i <;> rfl
  step
    | .name => once [] []
    | .blindBox => flagged [] []
  kind_on i := by
    cases i with
    | name => exact Kind.once_on _ _ [] [] (sealParts.slot .name)
    | blindBox => exact Kind.flagged_on _ [] [] (sealParts.slot .blindBox)

def deliverRunSeparate : Separate deliverRunGrammar deliverRunParts where
  text
    | .name => "--name"
    | .envName => "--env"
    | .envelopeFile => "--envelope-file"
  text_injective := by
    rintro (_ | _ | _) (_ | _ | _) h <;> first | rfl | exact absurd h (by decide)
  kind
    | .name => onceValued "--name" (deliverRunParts.slot .name)
    | .envName => onceValued "--env" (deliverRunParts.slot .envName)
    | .envelopeFile => onceValued "--envelope-file" (deliverRunParts.slot .envelopeFile)
  option_eq_some {flag k} := by
    constructor
    · intro h
      simp only [deliverRunGrammar] at h
      split at h
      · exact ⟨.name,rfl,(Option.some.inj h).symm⟩
      · exact ⟨.envName,rfl,(Option.some.inj h).symm⟩
      · exact ⟨.envelopeFile,rfl,(Option.some.inj h).symm⟩
      · cases h
    · rintro ⟨i,rfl,rfl⟩
      cases i <;> rfl
  step _ := once [] []
  kind_on i := by
    cases i with
    | name => exact Kind.once_on _ _ [] [] (deliverRunParts.slot .name)
    | envName => exact Kind.once_on _ _ [] [] (deliverRunParts.slot .envName)
    | envelopeFile => exact Kind.once_on _ _ [] [] (deliverRunParts.slot .envelopeFile)

def agentSeparate : Separate agentGrammar agentParts where
  text
    | .socketPath => "--socket"
    | .idleTimeoutSecs => "--idle-timeout-secs"
    | .store => "--store"
    | .unlock => "--unlock"
  text_injective := by
    rintro (_ | _ | _ | _) (_ | _ | _ | _) h <;> first | rfl | exact absurd h (by decide)
  kind
    | .socketPath => onceValued "--socket" (agentParts.slot .socketPath)
    | .idleTimeoutSecs => .latest [.message "--idle-timeout-secs requires a value"] parseIdleTimeout
        (agentParts.slot .idleTimeoutSecs)
    | .store => .latest [.message "--store requires a value"] StoreSelection.parse (agentParts.slot .store)
    | .unlock => onceToggled "--unlock" (agentParts.slot .unlock)
  option_eq_some {flag k} := by
    constructor
    · intro h
      simp only [agentGrammar] at h
      split at h
      · exact ⟨.socketPath,rfl,(Option.some.inj h).symm⟩
      · exact ⟨.idleTimeoutSecs,rfl,(Option.some.inj h).symm⟩
      · exact ⟨.store,rfl,(Option.some.inj h).symm⟩
      · exact ⟨.unlock,rfl,(Option.some.inj h).symm⟩
      · cases h
    · rintro ⟨i,rfl,rfl⟩
      cases i <;> rfl
  step
    | .socketPath => once [] []
    | .idleTimeoutSecs => latest parseIdleTimeout []
    | .store => latest StoreSelection.parse []
    | .unlock => flagged [] []
  kind_on i := by
    cases i with
    | socketPath => exact Kind.once_on _ _ [] [] (agentParts.slot .socketPath)
    | idleTimeoutSecs => exact Kind.latest_on _ [] (agentParts.slot .idleTimeoutSecs)
    | store => exact Kind.latest_on _ [] (agentParts.slot .store)
    | unlock => exact Kind.flagged_on _ [] [] (agentParts.slot .unlock)

/-- The last of the values that a flag is given, each of which must be one, or what it is without. -/
def LastGiven {α : Type} (parse : String → Result α) (start : α) (values : List (Option String)) (a : α) : Prop :=
  (∀ v ∈ values, ∃ text c, v = some text ∧ parse text = .ok c) ∧
    (values = [] ∧ a = start ∨ ∃ text, values.getLast? = some (some text) ∧ parse text = .ok a)

/-- What each command makes of its arguments: which lists of options it takes, in whatever order these come,
and what they mean. -/
structure ExactOptions : Prop where
  sealOptions : ∀ args o, parseSealOptions args = .ok o ↔ ∃ xs, args = settingArgs xs ∧
    (∀ x ∈ xs, x.flag = "--name" ∨ x.flag = "--blind-box") ∧
    given "--name" xs = [some o.name] ∧ given "--blind-box" xs = if o.blindBox then [none] else []
  deliverRunOptions : ∀ args o, parseDeliverRunOptions args = .ok o ↔ ∃ xs, args = settingArgs xs ∧
    (∀ x ∈ xs, x.flag = "--name" ∨ x.flag = "--env" ∨ x.flag = "--envelope-file") ∧
    given "--name" xs = [some o.name] ∧ given "--env" xs = [some o.envName] ∧
    given "--envelope-file" xs = (o.envelopeFile.map some).toList
  agentOptions : ∀ home args config o, parseAgentOptions home args config = .ok o ↔
    ∃ (xs : List Setting) (socket : Option String) (path : OsString), args = settingArgs xs ∧
      (∀ x ∈ xs, x.flag = "--socket" ∨ x.flag = "--idle-timeout-secs" ∨ x.flag = "--store" ∨ x.flag = "--unlock") ∧
      given "--socket" xs = (socket.map some).toList ∧ defaultAgentSocketPath home = .ok path ∧
      o.socketPath = (socket.map utf8).getD path ∧
      LastGiven parseIdleTimeout defaultAgentIdleTimeoutSecs (given "--idle-timeout-secs" xs) o.idleTimeoutSecs ∧
      LastGiven StoreSelection.parse config (given "--store" xs) o.store ∧
      given "--unlock" xs = (if o.unlock then [none] else []) ∧ (o.unlock = true → o.store = .filePassphrase)
  globalOptions : ∀ storeVar args store rest, parseGlobalOptions storeVar args = .ok (store,rest) ↔
    ∃ (values : List String) (start : StoreSelection), envStore storeVar = .ok start ∧
      args = settingArgs (values.map fun value => ⟨"--store",some value⟩) ++ rest ∧
      rest.head? ≠ some (utf8 "--store") ∧ LastGiven StoreSelection.parse start (values.map some) store

theorem readGlobalOptions_eq_ok {args rest : List OsString} {start store : StoreSelection} :
    readGlobalOptions start args = .ok (store,rest) ↔ ∃ values : List String,
      args = settingArgs (values.map fun value => ⟨"--store",some value⟩) ++ rest ∧
        rest.head? ≠ some (utf8 "--store") ∧ LastGiven StoreSelection.parse start (values.map some) store := by
  have hlast {start : StoreSelection} {values : List String} : LastGiven StoreSelection.parse start (values.map some) store ↔
      (values.map some).foldlM (latest StoreSelection.parse ([] : Error)) start = .ok store := latest_eq_ok.symm
  simp only [hlast]
  constructor
  · intro h
    fun_induction readGlobalOptions start args with
    | case1 start =>
      obtain ⟨rfl,rfl⟩ := Prod.mk.inj (Except.ok.inj h)
      exact ⟨[],rfl,by simp,rfl⟩
    | case2 | case3 | case4 => cases h
    | case5 start arg harg word rest value hvalue store hstore ih =>
      obtain ⟨values,rfl,hrest,hvalues⟩ := ih h
      refine ⟨value::values,?_,hrest,?_⟩
      · simp [Setting.args,fromUtf8_eq_some.mp harg,fromUtf8_eq_some.mp hvalue]
      · rw [List.map_cons,List.foldlM_cons]
        simp only [latest,hstore]
        exact hvalues
    | case6 start arg rest harg =>
      obtain ⟨rfl,rfl⟩ := Prod.mk.inj (Except.ok.inj h)
      refine ⟨[],rfl,fun hhead => harg ?_,rfl⟩
      rw [Option.some.inj hhead,fromUtf8_utf8]
  · rintro ⟨values,rfl,hrest,hvalues⟩
    induction values generalizing start with
    | nil =>
      obtain rfl := Except.ok.inj hvalues
      cases rest with
      | nil => rfl
      | cons arg rest =>
        have harg : fromUtf8 arg ≠ some "--store" := fun h => hrest (congrArg some (fromUtf8_eq_some.mp h))
        simp only [List.map_nil,settingArgs_nil,List.nil_append]
        rw [readGlobalOptions.eq_def]
        exact if_neg harg
    | cons value values ih =>
      simp only [List.map_cons,settingArgs_cons,Setting.args,Option.map_some,Option.toList_some,List.cons_append,
        List.nil_append]
      rw [readGlobalOptions.eq_def]
      simp only [fromUtf8_utf8,if_true]
      rw [List.map_cons,List.foldlM_cons] at hvalues
      cases hstore : StoreSelection.parse value with
      | error e =>
        simp only [latest,hstore] at hvalues
        cases hvalues
      | ok store =>
        simp only [latest,hstore] at hvalues
        exact ih hvalues

theorem options_exact : ExactOptions where
  sealOptions args o := by
    simp only [parseSealOptions,bind_eq_ok,Grammar.read_eq_ok,orError_eq_ok]
    constructor
    · rintro ⟨s,⟨xs,rfl,hxs⟩,name,hname,ho⟩
      obtain rfl := Except.ok.inj ho
      obtain ⟨hflags,hparts⟩ := sealSeparate.foldlM_eq_ok.mp hxs
      refine ⟨xs,rfl,fun x hx => ?_,?_,flagged_eq_ok.mp (hparts .blindBox)⟩
      · obtain ⟨_ | _,h⟩ := hflags x hx
        · exact .inl h
        · exact .inr h
      · have hgiven := once_eq_ok.mp (hparts .name)
        rwa [show (sealParts.slot .name).get s = some name from hname] at hgiven
    · rintro ⟨xs,rfl,hflags,hname,hblindBox⟩
      refine ⟨⟨some o.name,o.blindBox⟩,⟨xs,rfl,sealSeparate.foldlM_eq_ok.mpr ⟨fun x hx => ?_,fun i => ?_⟩⟩,_,rfl,rfl⟩
      · obtain h | h := hflags x hx
        · exact ⟨.name,h⟩
        · exact ⟨.blindBox,h⟩
      · cases i with
        | name => exact once_eq_ok.mpr hname
        | blindBox => exact flagged_eq_ok.mpr hblindBox
  deliverRunOptions args o := by
    simp only [parseDeliverRunOptions,bind_eq_ok,Grammar.read_eq_ok,orError_eq_ok]
    constructor
    · rintro ⟨s,⟨xs,rfl,hxs⟩,name,hname,envName,henvName,ho⟩
      obtain rfl := Except.ok.inj ho
      obtain ⟨hflags,hparts⟩ := deliverRunSeparate.foldlM_eq_ok.mp hxs
      refine ⟨xs,rfl,fun x hx => ?_,?_,?_,once_eq_ok.mp (hparts .envelopeFile)⟩
      · obtain ⟨_ | _ | _,h⟩ := hflags x hx
        · exact .inl h
        · exact .inr (.inl h)
        · exact .inr (.inr h)
      · have hgiven := once_eq_ok.mp (hparts .name)
        rwa [show (deliverRunParts.slot .name).get s = some name from hname] at hgiven
      · have hgiven := once_eq_ok.mp (hparts .envName)
        rwa [show (deliverRunParts.slot .envName).get s = some envName from henvName] at hgiven
    · rintro ⟨xs,rfl,hflags,hname,henvName,henvelopeFile⟩
      have hparts : xs.foldlM deliverRunGrammar.apply ⟨none,none,none⟩ = .ok ⟨some o.name,some o.envName,o.envelopeFile⟩ := by
        refine deliverRunSeparate.foldlM_eq_ok.mpr ⟨fun x hx => ?_,fun i => ?_⟩
        · obtain h | h | h := hflags x hx
          · exact ⟨.name,h⟩
          · exact ⟨.envName,h⟩
          · exact ⟨.envelopeFile,h⟩
        · cases i with
          | name => exact once_eq_ok.mpr hname
          | envName => exact once_eq_ok.mpr henvName
          | envelopeFile => exact once_eq_ok.mpr henvelopeFile
      exact ⟨_,⟨xs,rfl,hparts⟩,_,rfl,_,rfl,rfl⟩
  agentOptions home args config o := by
    simp only [parseAgentOptions,bind_eq_ok,Grammar.read_eq_ok,bailIf_eq_ok,not_and,not_not]
    constructor
    · rintro ⟨s,⟨xs,rfl,hxs⟩,_,hunlock,path,hpath,ho⟩
      obtain rfl := Except.ok.inj ho
      obtain ⟨hflags,hparts⟩ := agentSeparate.foldlM_eq_ok.mp hxs
      refine ⟨xs,s.socketPath,path,rfl,fun x hx => ?_,once_eq_ok.mp (hparts .socketPath),hpath,rfl,
        latest_eq_ok.mp (hparts .idleTimeoutSecs),latest_eq_ok.mp (hparts .store),flagged_eq_ok.mp (hparts .unlock),hunlock⟩
      obtain ⟨_ | _ | _ | _,h⟩ := hflags x hx
      · exact .inl h
      · exact .inr (.inl h)
      · exact .inr (.inr (.inl h))
      · exact .inr (.inr (.inr h))
    · rintro ⟨xs,socket,path,rfl,hflags,hsocket,hpath,hsocketPath,hidle,hstore,hunlocks,hunlock⟩
      have hparts : xs.foldlM agentGrammar.apply ⟨none,defaultAgentIdleTimeoutSecs,config,false⟩ =
          .ok ⟨socket,o.idleTimeoutSecs,o.store,o.unlock⟩ := by
        refine agentSeparate.foldlM_eq_ok.mpr ⟨fun x hx => ?_,fun i => ?_⟩
        · obtain h | h | h | h := hflags x hx
          · exact ⟨.socketPath,h⟩
          · exact ⟨.idleTimeoutSecs,h⟩
          · exact ⟨.store,h⟩
          · exact ⟨.unlock,h⟩
        · cases i with
          | socketPath => exact once_eq_ok.mpr hsocket
          | idleTimeoutSecs => exact latest_eq_ok.mpr hidle
          | store => exact latest_eq_ok.mpr hstore
          | unlock => exact flagged_eq_ok.mpr hunlocks
      refine ⟨_,⟨xs,rfl,hparts⟩,(),hunlock,path,hpath,?_⟩
      rw [← hsocketPath]
      rfl
  globalOptions storeVar args store rest := by
    simp only [parseGlobalOptions,bind_eq_ok,readGlobalOptions_eq_ok]
    constructor
    · rintro ⟨start,hstart,values,hargs,hrest,hvalues⟩
      exact ⟨values,start,hstart,hargs,hrest,hvalues⟩
    · rintro ⟨values,start,hstart,hargs,hrest,hvalues⟩
      exact ⟨start,hstart,values,hargs,hrest,hvalues⟩

end Exact
end Avault.Cli
