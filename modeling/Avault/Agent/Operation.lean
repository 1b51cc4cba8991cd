import Avault.Crypto.BlindBox

/-! The operation hashes of the two kinds of grant, and what the blind-box AAD and these
hashes commit to. -/
namespace Avault.Agent
open Foundation Crypto

/-- The fields hashed by `agent_deliver_operation_hash`. -/
def agentDeliverOperationFields (name : String) (ttlSecs : UInt64) : List Bytes :=
  [utf8 "agent-deliver",utf8 name,toBeBytes ttlSecs]

/-- The fields hashed by `agent_sign_operation_hash`. -/
def agentSignOperationFields (scheme : String) (digest : Key) (ttlSecs : UInt64) : List Bytes :=
  [utf8 "agent-sign",utf8 scheme,digest.toList,toBeBytes ttlSecs]

def agentDeliverOperationHash (sha256 : Bytes → Key) (name : String) (ttlSecs : UInt64) :
    Option Key :=
  operationHash sha256 (agentDeliverOperationFields name ttlSecs)

def agentSignOperationHash (sha256 : Bytes → Key) (scheme : String) (digest : Key)
    (ttlSecs : UInt64) : Option Key :=
  operationHash sha256 (agentSignOperationFields scheme digest ttlSecs)

theorem agentDeliverOperationFields_inj {n n' : String} {t t' : UInt64} :
    agentDeliverOperationFields n t = agentDeliverOperationFields n' t' ↔ n = n' ∧ t = t' := by
  simp [agentDeliverOperationFields]

theorem agentSignOperationFields_inj {s s' : String} {d d' : Key} {t t' : UInt64} :
    agentSignOperationFields s d t = agentSignOperationFields s' d' t' ↔
      s = s' ∧ d = d' ∧ t = t' := by
  simp [agentSignOperationFields,Vector.toList_inj]

theorem agentDeliverOperationFields_ne_sign {n s : String} {d : Key} {t t' : UInt64} :
    agentDeliverOperationFields n t ≠ agentSignOperationFields s d t' := by
  simp [agentDeliverOperationFields,agentSignOperationFields]

/-- Equal blind-box AADs mean equal contexts and equal operation-hash inputs mean equal field
lists, so the deliver and sign hashes commit to what was approved. -/
theorem aadBytes_operationHash_unambiguous (c d : BlindBoxContext) (hc : c.Fits) (hd : d.Fits)
    (vs ws : List Bytes) (hvs : ∀ v ∈ vs, v.length < 2^32) (hws : ∀ w ∈ ws, w.length < 2^32) :
    (∃ a b, c.aadBytes = some a ∧ d.aadBytes = some b ∧ (a = b ↔ c.SameFields d) ∧
      (c.purpose ≠ d.purpose → a ≠ b)) ∧
    (∃ a b, operationHashInput vs = some a ∧ operationHashInput ws = some b ∧
      (a = b ↔ vs = ws)) ∧
    (∀ n t n' t' b, operationHashInput (agentDeliverOperationFields n t) = some b →
      operationHashInput (agentDeliverOperationFields n' t') = some b → n = n' ∧ t = t') ∧
    (∀ s dg t s' dg' t' b, operationHashInput (agentSignOperationFields s dg t) = some b →
      operationHashInput (agentSignOperationFields s' dg' t') = some b →
      s = s' ∧ dg = dg' ∧ t = t') ∧
    (∀ n t s dg t' b, operationHashInput (agentDeliverOperationFields n t) = some b →
      operationHashInput (agentSignOperationFields s dg t') ≠ some b) := by
  obtain ⟨a,ha⟩ : ∃ a, c.aadBytes = some a := ⟨_,BlindBoxContext.aadBytes_eq_some.mpr ⟨hc,rfl⟩⟩
  obtain ⟨b,hb⟩ : ∃ b, d.aadBytes = some b := ⟨_,BlindBoxContext.aadBytes_eq_some.mpr ⟨hd,rfl⟩⟩
  have haad : a = b ↔ c.SameFields d := by
    constructor
    · rintro rfl
      exact BlindBoxContext.aadBytes_inj ha hb
    · intro h
      have hcongr := BlindBoxContext.aadBytes_congr h
      rw [ha,hb] at hcongr
      exact Option.some.inj hcongr
  have hv := operationHashInput_eq_some.mpr ⟨hvs,rfl⟩
  have hw := operationHashInput_eq_some.mpr ⟨hws,rfl⟩
  refine ⟨⟨a,b,ha,hb,haad,fun hne h => hne (haad.mp h).purpose⟩,⟨_,_,hv,hw,?_⟩,?_,?_,?_⟩
  · exact ⟨fun h => operationHashInput_inj hv (h ▸ hw),fun h => h ▸ rfl⟩
  · intro n t n' t' b h h'
    exact agentDeliverOperationFields_inj.mp (operationHashInput_inj h h')
  · intro s dg t s' dg' t' b h h'
    exact agentSignOperationFields_inj.mp (operationHashInput_inj h h')
  · intro n t s dg t' b h h'
    exact agentDeliverOperationFields_ne_sign (operationHashInput_inj h h')

/-- The two contexts of one grant and name, and the two operation hashes. -/
theorem aadBytes_operationHash_unambiguous_deliver_sign :
    (∃ a b, (BlindBoxContext.agentDeliver "g1" "KEY").aadBytes = some a ∧
      (BlindBoxContext.agentSign "g1" "KEY" "bip340" (Vector.replicate 32 7)).aadBytes = some b ∧
      a ≠ b) ∧
    ∃ a b, operationHashInput [utf8 "ab",utf8 "c"] = some a ∧
      operationHashInput [utf8 "a",utf8 "bc"] = some b ∧ a ≠ b := by
  have hmain := aadBytes_operationHash_unambiguous (BlindBoxContext.agentDeliver "g1" "KEY")
    (BlindBoxContext.agentSign "g1" "KEY" "bip340" (Vector.replicate 32 7))
    ⟨by decide,by decide,by decide,by decide⟩ ⟨by decide,by decide,by decide,by decide⟩
    [utf8 "ab",utf8 "c"] [utf8 "a",utf8 "bc"] (by decide) (by decide)
  obtain ⟨⟨a,b,ha,hb,_,hne⟩,⟨u,w,hu,hw,heq⟩,_⟩ := hmain
  refine ⟨⟨a,b,ha,hb,hne (by decide)⟩,u,w,hu,hw,fun h => ?_⟩
  exact absurd (heq.mp h) (by decide)

end Avault.Agent
