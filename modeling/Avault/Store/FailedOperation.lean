import Avault.Store.Concrete
import Avault.Store.Unharmed

/-! A forced import whose call number `n` fails, and the operations of the `auto` store that leave
the vault unharmed when they fail. -/
namespace Avault.Store
open Foundation Crypto
open Foundation.Program (Ensures ensures_bind ensures_pure ensures_attempt ensures_ite ensures_map)

namespace Platform

/-! The calls of a forced import, counted from 0. Where there is a file, the 11 calls of the
file import follow on those of the stronger store; the third of them is the existence check, and
the file is in place after the eighth. -/

/-- The calls after which the stronger store has the key. -/
def strongCut : Platform → ℕ
  | linux => 12
  | mac _ => 3

/-- The calls after which the import into the stronger store has ended. -/
def strongEnd : Platform → ℕ
  | linux => 15
  | mac _ => 3

/-- Call `n` is one behind the first install, before the second if there is one. The existence
check in front of the file does not count. -/
def Between (p : Platform) (w : World) (n : ℕ) : Prop :=
  p.strongCut ≤ n ∧ if p.hasFile w then n < p.strongEnd+8 ∧ n ≠ p.strongEnd+2 else n < p.strongEnd

/-- Call `n` is one behind the second install. -/
def Behind (p : Platform) (w : World) (n : ℕ) : Prop :=
  p.hasFile w = true ∧ p.strongEnd+8 ≤ n ∧ n < p.strongEnd+11

/-- How a forced import ends where call `n` fails. -/
inductive ForcedOutcome {α : Type} (M : Machine) (p : Platform) (key : Key) (w : World) (n : ℕ) :
    Result α → World → Prop
  | done {a t} : ¬ p.Between w n → ¬ p.Behind w n → ForcedOutcome M p key w n (.ok a) t
  | unwritten {e t} : n < p.strongCut → Kept w t → ForcedOutcome M p key w n (.error e) t
  | between {e t} : p.Between w n → p.StrongInstalled M key w t →
    ForcedOutcome M p key w n (.error e) t
  | behind {e t} : p.Behind w n → p.fileKey t = some key → p.strongKey M t = some key →
    ForcedOutcome M p key w n (.error e) t

section Forced

variable {M : Machine} {p : Platform} {e : Error} {w t : World} {n : ℕ} {key k : Key}

theorem strongCut_le_strongEnd : p.strongCut ≤ p.strongEnd := by
  cases p <;> simp [strongCut,strongEnd]

theorem StrongInstalled.kept {u : World} (h : p.StrongInstalled M key w t) (hkept : Kept t u) :
    p.StrongInstalled M key w u := by
  cases p with
  | linux =>
    obtain ⟨⟨n,hn⟩,hfile,hkeychain,hdraws⟩ := h
    exact ⟨⟨n,hkept.tpmFile.trans hn⟩,hkept.file.trans hfile,hkept.keychain.trans hkeychain,
      hkept.draws.trans hdraws⟩
  | mac home =>
    exact ⟨hkept.keychain.trans h.keychain,hkept.file.trans h.file,hkept.tpmFile.trans h.tpmFile,
      hkept.draws.trans h.draws⟩

theorem between_of_file (hfile : p.hasFile w = true) :
    p.Between w n ↔ p.strongCut ≤ n ∧ n < p.strongEnd+8 ∧ n ≠ p.strongEnd+2 := by
  rw [Between,if_pos hfile]

theorem between_of_no_file (hfile : ¬ p.hasFile w = true) :
    p.Between w n ↔ p.strongCut ≤ n ∧ n < p.strongEnd := by
  rw [Between,if_neg hfile]

/-- The import into the file, where the stronger store has the key already. -/
theorem fileImport_forced {text : String} {m : ℕ} (hfile : p.hasFile w = true)
    (hstrong : p.StrongInstalled M key w t) :
    Ensures (M.faulty e) (withContext text (FileStore.importKey key true)) ⟨t,some m⟩
      fun r u => p.ForcedOutcome M key w (p.strongEnd+m) r u.world := by
  have hle : p.strongCut ≤ p.strongEnd := strongCut_le_strongEnd
  apply Ensures.mono ((straight_withContext (fileImport_writing (Kept.refl t))).ends (some m))
  intro r u h
  cases h with
  | ahead _ =>
    refine .done (fun h => ?_) fun h => ?_
    · have hlt := ((between_of_file hfile).mp h).2.1
      omega
    · have hlt := h.2.2
      omega
  | unnoticed hn _ =>
    obtain rfl := List.mem_singleton.mp hn
    refine .done (fun h => ?_) fun h => ?_
    · exact ((between_of_file hfile).mp h).2.2 rfl
    · have hlt := h.2.1
      omega
  | @struck _ _ u hn hsoft hu =>
    by_cases hm : m < 8
    · rw [if_pos hm] at hu
      refine .between ((between_of_file hfile).mpr ⟨?_,?_,fun h => hsoft ?_⟩) (hstrong.kept hu)
      · omega
      · omega
      · exact List.mem_singleton.mpr (Nat.add_left_cancel h)
    · rw [if_neg hm] at hu
      have hkey : p.fileKey u = some key := by
        have hhas : p.hasFile u = true := by
          match p with
          | linux | mac true => exact congrArg Option.isSome hu.file
          | mac false => cases hfile
        rw [fileKey,if_pos hhas]
        exact hu.fileKey
      have hstrongKey : p.strongKey M u = some key := by
        have hsame : p.strongKey M u = p.strongKey M t := by
          cases p with
          | linux => exact hu.tpmKey
          | mac home => rw [strongKey,strongKey,keychainKey,keychainKey,hu.keychain]
        exact hsame.trans hstrong.strongKey
      exact .behind ⟨hfile,by omega,by omega⟩ hkey hstrongKey

theorem ForcedOutcome.done_before {α : Type} {a : α} (hn : n < p.strongCut) :
    p.ForcedOutcome M key w n (.ok a) t := by
  have hle : p.strongCut ≤ p.strongEnd := strongCut_le_strongEnd
  refine .done (fun h => absurd h.1 (Nat.not_le_of_lt hn)) fun h => ?_
  have hge := h.2.1
  omega

/-- The import into the file, where the fault has struck before. -/
theorem fileImport_clean {text : String} (hn : n < p.strongCut) :
    Ensures (M.faulty e) (withContext text (FileStore.importKey key true)) ⟨t,none⟩
      fun r u => p.ForcedOutcome M key w n r u.world := by
  apply Ensures.mono ((straight_withContext (fileImport_writing (Kept.refl t))).ends none)
  intro r u h
  cases h with
  | clean _ => exact .done_before hn

/-- A forced import that ends with the one into the TPM, since it failed. -/
theorem tpmImport_struck {α : Type} {e' : Error} (hn : n < 14)
    (ht : if n < 11 then Kept w t else TpmInstalled M key w t) :
    linux.ForcedOutcome M key w (n+1) (.error e' : Result α) t := by
  by_cases hearly : n < 11
  · rw [if_pos hearly] at ht
    exact .unwritten (Nat.succ_lt_succ hearly) ht
  · rw [if_neg hearly] at ht
    refine .between ?_ ht
    by_cases hfile : linux.hasFile w = true
    · apply (between_of_file hfile).mpr
      simp only [strongCut,strongEnd]
      omega
    · apply (between_of_no_file hfile).mpr
      simp only [strongCut,strongEnd]
      omega

theorem linuxImport_forced : Ensures (M.faulty e) (LinuxAuto.importKey M key true) ⟨w,some n⟩
    fun r t => linux.ForcedOutcome M key w n r t.world := by
  have himport : Writing M e (TpmStore.importWith M key true) w () 14 [2] 11 _ _ := tpmImport_writing (Kept.refl w)
  have hempty {n : ℕ} {t : World} (ht : if n < 11 then Kept w t else TpmInstalled M key w t)
      (hnone : ¬ t.tpmFile.isSome = true) : n+1 < linux.strongCut := by
    by_cases hearly : n < 11
    · exact Nat.succ_lt_succ hearly
    · rw [if_neg hearly] at ht
      obtain ⟨k,hk⟩ := ht.tpmFile
      simp [hk] at hnone
  cases n with
  | zero =>
    refine ensures_bind.mpr (pathExists_zero.mpr (ensures_ite.mpr ⟨nofun,fun _ => ?_⟩))
    refine ensures_bind.mpr (ensures_attempt.mpr (Ensures.mono (himport.ends none) ?_))
    intro r t h
    cases h with
    | clean _ => exact ensures_pure.mpr (.done_before (by decide))
  | succ n =>
    refine ensures_bind.mpr (pathExists_succ.mpr (ensures_ite.mpr ⟨fun hfile => ?_,fun hfile => ?_⟩))
    · refine ensures_bind.mpr (ensures_liftResult.mpr ?_)
      refine ensures_bind.mpr (ensures_attempt.mpr (Ensures.mono (himport.ends (some n)) ?_))
      intro r t h
      cases h with
      | @ahead m t ht =>
        have hcount : 14+m+1 = linux.strongEnd+m := by
          rw [strongEnd]
          omega
        rw [hcount]
        exact fileImport_forced hfile ht
      | @unnoticed _ t hn ht =>
        obtain rfl := List.mem_singleton.mp hn
        exact fileImport_clean (by decide)
      | @struck _ e' t hn _ ht =>
        refine ensures_ite.mpr ⟨fun _ => ?_,fun _ => ensures_bind.mpr (ensures_liftResult.mpr
          (tpmImport_struck hn ht))⟩
        refine ensures_bind.mpr (pathExists_none.mpr (ensures_ite.mpr ⟨fun _ => ?_,fun hnone => ?_⟩))
        · exact ensures_bind.mpr (ensures_liftResult.mpr (tpmImport_struck hn ht))
        · exact fileImport_clean (hempty ht hnone)
    · refine ensures_bind.mpr (ensures_attempt.mpr (Ensures.mono (himport.ends (some n)) ?_))
      intro r t h
      cases h with
      | @ahead m t _ =>
        refine ensures_pure.mpr (.done (fun h => ?_) fun h => hfile h.1)
        have hlt := ((between_of_no_file (p := linux) hfile).mp h).2
        rw [strongEnd] at hlt
        omega
      | @unnoticed _ t hn _ =>
        obtain rfl := List.mem_singleton.mp hn
        exact ensures_pure.mpr (.done_before (by decide))
      | @struck _ e' t hn _ ht =>
        refine ensures_ite.mpr ⟨fun _ => ?_,fun _ => ensures_liftResult.mpr (tpmImport_struck hn ht)⟩
        refine ensures_bind.mpr (pathExists_none.mpr (ensures_ite.mpr ⟨fun _ => ?_,fun hnone => ?_⟩))
        · exact ensures_liftResult.mpr (tpmImport_struck hn ht)
        · exact fileImport_clean (hempty ht hnone)

/-- A forced import into Keychain alone. A fault ends it before anything is written. -/
theorem macKeychain_forced {home : Bool} {left : Option ℕ} (hbound : ∀ m, left = some m → n ≤ m+1)
    (hdone : ∀ t, (mac home).ForcedOutcome M key w n (.ok () : Result Unit) t) :
    Ensures (M.faulty e) (do
      match ← Program.attempt (MacAuto.importKeychainKey key true) with
      | .ok () => return ()
      | .error err =>
        if isKeychainUnavailable err then
          liftResult (context "Keychain is unavailable; use --store file to import into file storage"
            (.error err))
        else liftResult (.error err)) ⟨w,left⟩ fun r t => (mac home).ForcedOutcome M key w n r t.world := by
  refine ensures_bind.mpr (ensures_attempt.mpr (Ensures.mono (keychainImport_writing.ends left) ?_))
  intro r t h
  cases h with
  | clean _ => exact ensures_pure.mpr (hdone _)
  | ahead _ => exact ensures_pure.mpr (hdone _)
  | unnoticed hn _ => cases hn
  | @struck m _ t hm _ ht =>
    rw [if_pos hm] at ht
    have hn : n < 3 := Nat.lt_of_le_of_lt (hbound m rfl) (Nat.succ_lt_succ hm)
    exact ensures_ite.mpr ⟨fun _ => ensures_liftResult.mpr (.unwritten hn ht),
      fun _ => ensures_liftResult.mpr (.unwritten hn ht)⟩

theorem ForcedOutcome.done_mac {home : Bool} (hfile : ¬ (mac home).hasFile w = true) :
    (mac home).ForcedOutcome M key w n (.ok () : Result Unit) t := by
  refine .done (fun h => ?_) fun h => hfile h.1
  obtain ⟨hge,hlt⟩ := (between_of_no_file hfile).mp h
  exact absurd hlt (Nat.not_lt_of_le hge)

theorem macImport_forced {home : Bool} : Ensures (M.faulty e) (MacAuto.importKey home key true) ⟨w,some n⟩
    fun r t => (mac home).ForcedOutcome M key w n r t.world := by
  cases home with
  | false =>
    refine ensures_bind.mpr (ensures_ite.mpr ⟨nofun,fun _ => ensures_pure.mpr ?_⟩)
    refine ensures_ite.mpr ⟨nofun,fun _ => macKeychain_forced ?_ fun _ => .done_mac nofun⟩
    rintro m ⟨⟩
    exact Nat.le_succ n
  | true =>
    refine ensures_bind.mpr (ensures_ite.mpr ⟨fun _ => ?_,nofun⟩)
    cases n with
    | zero =>
      refine pathExists_zero.mpr (ensures_ite.mpr ⟨nofun,fun _ => macKeychain_forced nofun fun t => ?_⟩)
      exact .done_before (Nat.succ_pos 2)
    | succ n =>
      refine pathExists_succ.mpr (ensures_ite.mpr ⟨fun hfile => ?_,fun hfile => ?_⟩)
      · refine ensures_bind.mpr (ensures_liftResult.mpr ?_)
        refine ensures_bind.mpr (Ensures.mono ((straight_withContext keychainImport_writing).ends (some n)) ?_)
        intro r t h
        cases h with
        | @ahead m t ht =>
          have hcount : 2+m+1 = (mac true).strongEnd+m := by
            rw [strongEnd]
            omega
          rw [hcount]
          exact fileImport_forced hfile ht
        | unnoticed hn _ => cases hn
        | @struck _ _ t hn _ ht =>
          rw [if_pos hn] at ht
          exact .unwritten (Nat.succ_lt_succ hn) ht
      · refine macKeychain_forced ?_ fun _ => .done_mac hfile
        rintro m ⟨⟩
        exact Nat.le_refl _

theorem importKey_forced : Ensures (M.faulty e) (p.program M (.importKey key true)) ⟨w,some n⟩
    fun r t => p.ForcedOutcome M key w n r t.world := by
  have himport : Ensures (M.faulty e) (p.importKey M key true) ⟨w,some n⟩
      fun r t => p.ForcedOutcome M key w n r t.world := by
    cases p with
    | linux => exact linuxImport_forced
    | mac home => exact macImport_forced
  refine ensures_map.mpr (Ensures.mono himport ?_)
  intro r t h
  cases h with
  | done hbetween hbehind => exact .done hbetween hbehind
  | unwritten hn hkept => exact .unwritten hn hkept
  | between hbetween hstrong => exact .between hbetween hstrong
  | behind hbehind hfile hstrong => exact .behind hbehind hfile hstrong

/-- The key of the store that is looked at first. -/
def firstKey (M : Machine) (p : Platform) (w : World) : Option Key :=
  if p.hasFile w then p.fileKey w else p.strongKey M w

/-- With the key in the stronger store alone, the vault is unharmed if it was the first key
already, or there was none. -/
theorem unharmed_iff_of_strong (h : p.StrongInstalled M key w t) :
    p.Unharmed M w t ↔ ∀ k, p.firstKey M w = some k → k = key := by
  have hfileKey : p.fileKey t = p.fileKey w := fileKey_congr h.file
  by_cases hfile : p.hasFile w = true
  · rw [firstKey,if_pos hfile]
    constructor
    · exact fun hunharmed k hk => hunharmed.1 k key (hfileKey.trans hk) h.strongKey
    · intro hfirst
      cases hk : p.fileKey w with
      | some k =>
        obtain rfl := hfirst k hk
        exact .of_migrated hk h
      | none =>
        refine ⟨fun k k' hk' _ => ?_,fun k hloads => ?_⟩
        · rw [hfileKey,hk] at hk'
          cases hk'
        · have hkey := loads_of_file hfile hloads
          rw [hk] at hkey
          cases hkey
  · have hfile' : ¬ p.hasFile t = true := hasFile_congr h.file ▸ hfile
    have hloads : p.loads M t = .ok key := (loads_of_no_file hfile').mpr h.strongKey
    rw [firstKey,if_neg hfile]
    constructor
    · intro hunharmed k hk
      have hkept := hunharmed.2 k ((loads_of_no_file hfile).mpr hk)
      exact Except.ok.inj (hkept.symm.trans hloads)
    · refine fun hfirst => ⟨fun k k' hk _ => ?_,fun k hk => ?_⟩
      · rw [fileKey,if_neg hfile'] at hk
        cases hk
      · rw [hfirst k ((loads_of_no_file hfile).mp hk)]
        exact hloads

theorem unharmed_iff_of_both (hfile : p.fileKey t = some key) (hstrong : p.strongKey M t = some key) :
    p.Unharmed M w t ↔ ∀ k, p.loads M w = .ok k → k = key := by
  have hloads : p.loads M t = .ok key := loads_of_both hfile hstrong
  constructor
  · exact fun hunharmed k hk => Except.ok.inj ((hunharmed.2 k hk).symm.trans hloads)
  · refine fun hsame => ⟨fun k k' hk hk' => ?_,fun k hk => ?_⟩
    · exact Option.some.inj ((hk.symm.trans hfile).trans (hstrong.symm.trans hk'))
    · rw [hsame k hk]
      exact hloads

end Forced

/-- A forced import that ends behind one of its installs, where it replaces another key. -/
def KeyReplaced (M : Machine) (p : Platform) (w : World) (op : Operation) (n : ℕ) : Prop :=
  ∃ key k, op = .importKey key true ∧ k ≠ key ∧
    (p.Between w n ∧ p.firstKey M w = some k ∨ p.Behind w n ∧ p.loads M w = .ok k)

/-- The operation, with its call number `n` failing. -/
def runFaulty (M : Machine) (p : Platform) (e : Error) (n : ℕ) (op : Operation) (w : World) :
    Result (Option Key) × World :=
  runFault (perform M) (Call.failure e) n (p.program M op).run w

section FailedOperation

variable {M : Machine} {p : Platform} {e : Error} {w t : World} {n : ℕ} {key : Key} {op : Operation}

theorem runFaulty_spec {Q : Result (Option Key) → World → Prop}
    (h : Ensures (M.faulty e) (p.program M op) ⟨w,some n⟩ fun r t => Q r t.world) :
    Q (p.runFaulty M e n op w).1 (p.runFaulty M e n op w).2 :=
  Program.wp_outcome.mp h

theorem not_between_and_behind (h : p.Between w n) (h' : p.Behind w n) : False := by
  have hlt := ((between_of_file h'.1).mp h).2.1
  exact absurd h'.2.1 (Nat.not_le_of_lt hlt)

theorem ForcedOutcome.failsUnharmed_iff {r : Result (Option Key)} (hagree : p.Agree M w)
    (h : p.ForcedOutcome M key w n r t) :
    p.FailsUnharmed M w r t ↔ ¬ p.KeyReplaced M w (.importKey key true) n := by
  have hle : p.strongCut ≤ p.strongEnd := strongCut_le_strongEnd
  cases h with
  | done hbetween hbehind =>
    apply iff_of_true nofun
    rintro ⟨_,_,_,_,⟨h,_⟩ | ⟨h,_⟩⟩
    · exact hbetween h
    · exact hbehind h
  | unwritten hn hkept =>
    refine iff_of_true (.of_unwritten hagree fun _ _ => hkept.unwritten) ?_
    rintro ⟨_,_,_,_,⟨h,_⟩ | ⟨h,_⟩⟩
    · exact absurd h.1 (Nat.not_le_of_lt hn)
    · have hge := h.2.1
      omega
  | @between e t hbetween hstrong =>
    have hiff := unharmed_iff_of_strong hstrong
    constructor
    · rintro hfails ⟨key',k,hop,hne,⟨_,hk⟩ | ⟨hbehind,_⟩⟩
      · cases hop
        exact hne (hiff.mp (hfails e rfl) k hk)
      · exact not_between_and_behind hbetween hbehind
    · refine fun hnot _ _ => hiff.mpr fun k hk => ?_
      by_contra hne
      exact hnot ⟨key,k,rfl,hne,.inl ⟨hbetween,hk⟩⟩
  | @behind e t hbehind hfile hstrong =>
    have hiff := unharmed_iff_of_both (w := w) hfile hstrong
    constructor
    · rintro hfails ⟨key',k,hop,hne,⟨hbetween,_⟩ | ⟨_,hk⟩⟩
      · exact not_between_and_behind hbetween hbehind
      · cases hop
        exact hne (hiff.mp (hfails e rfl) k hk)
    · refine fun hnot _ _ => hiff.mpr fun k hk => ?_
      by_contra hne
      exact hnot ⟨key,k,rfl,hne,.inr ⟨hbehind,hk⟩⟩

/-- An operation that fails leaves the vault unharmed, but for a forced import that ends behind
one of its installs. -/
theorem failedOperation_unharmed_iff (hagree : p.Agree M w) :
    (∀ err, (p.runFaulty M e n op w).1 = .error err → p.Unharmed M w (p.runFaulty M e n op w).2) ↔
      ¬ p.KeyReplaced M w op n := by
  by_cases hop : ∃ key, op = .importKey key true
  · obtain ⟨key,rfl⟩ := hop
    exact (runFaulty_spec importKey_forced).failsUnharmed_iff hagree
  · refine iff_of_true (runFaulty_spec (unforced_failsUnharmed hagree fun key h => hop ⟨key,h⟩)) ?_
    rintro ⟨key,_,h,_⟩
    exact hop ⟨key,h⟩

end FailedOperation

/-- A vault with a key file. -/
def fileWorld : World := { World.empty with file := some (counterKey 0).toList }

theorem agree_fileWorld : linux.Agree Machine.clear fileWorld := by
  intro k k' _ hk'
  cases hk'

theorem firstKey_fileWorld : linux.firstKey Machine.clear fileWorld = some (counterKey 0) :=
  toArray?_toList (counterKey 0)

def noSpace : Error := [.io .other "No space left on device (os error 28)"]

/-- The disk is full when the key of the file has just been copied to the TPM. -/
theorem failedOperation_unharmed_iff_noSpace : linux.Agree Machine.clear fileWorld ∧
    (∃ err, (linux.runFaulty Machine.clear noSpace 17 .loadOrCreate fileWorld).1 = .error err) ∧
    (linux.runFaulty Machine.clear noSpace 17 .loadOrCreate fileWorld).2.tpmFile.isSome = true ∧
    ((∀ err, (linux.runFaulty Machine.clear noSpace 17 .loadOrCreate fileWorld).1 = .error err →
      linux.Unharmed Machine.clear fileWorld
        (linux.runFaulty Machine.clear noSpace 17 .loadOrCreate fileWorld).2) ↔
      ¬ linux.KeyReplaced Machine.clear fileWorld .loadOrCreate 17) :=
  ⟨agree_fileWorld,⟨_,rfl⟩,rfl,failedOperation_unharmed_iff agree_fileWorld⟩

/-- The disk is full when a forced import has written the TPM blob and comes to the file. -/
theorem failedOperation_harmed : ¬ ∀ (M : Machine) (p : Platform) (e : Error) (w : World) (n : ℕ)
    (op : Operation), p.Agree M w → ∀ err, (p.runFaulty M e n op w).1 = .error err →
      p.Unharmed M w (p.runFaulty M e n op w).2 := by
  intro h
  have hfails := h Machine.clear .linux noSpace fileWorld 20 (.importKey (counterKey 1) true) agree_fileWorld
  apply ((runFaulty_spec importKey_forced).failsUnharmed_iff agree_fileWorld).mp hfails
  refine ⟨counterKey 1,counterKey 0,rfl,by decide,.inl ⟨?_,firstKey_fileWorld⟩⟩
  exact (between_of_file rfl).mpr (by decide)

end Platform
end Avault.Store
