import Avault.Foundation.Bytes

/-! JSON string literals. A literal is described by what it denotes, so that a serializer
is free in what it escapes and how. -/
namespace Avault.Foundation.JsonText

def hexDigit? (c : Char) : Option ℕ :=
  if '0' ≤ c ∧ c ≤ '9' then some (c.toNat-48)
  else if 'a' ≤ c ∧ c ≤ 'f' then some (c.toNat-87)
  else if 'A' ≤ c ∧ c ≤ 'F' then some (c.toNat-55)
  else none

/-- The code unit written by the four digits of a `\u` escape. -/
def codeUnit? (a b c d : Char) : Option ℕ := do
  let a ← hexDigit? a
  let b ← hexDigit? b
  let c ← hexDigit? c
  let d ← hexDigit? d
  some (((a*16+b)*16+c)*16+d)

def shortEscape? : Char → Option Char
  | '"' => some '"'
  | '\\' => some '\\'
  | '/' => some '/'
  | 'b' => some '\x08'
  | 'f' => some '\x0c'
  | 'n' => some '\n'
  | 'r' => some '\r'
  | 't' => some '\t'
  | _ => none

/-- One item between the quotes, with the character it stands for. -/
inductive Item : Char → List Char → Prop
  | plain {c} : c ≠ '"' → c ≠ '\\' → 0x20 ≤ c.toNat → Item c [c]
  | short {c e} : shortEscape? e = some c → Item c ['\\',e]
  | unit {c p q r s} : codeUnit? p q r s = some c.toNat → Item c ['\\','u',p,q,r,s]
  | pair {c p q r s p' q' r' s' hi lo} : codeUnit? p q r s = some (0xd800+hi) → hi < 0x400 →
      codeUnit? p' q' r' s' = some (0xdc00+lo) → lo < 0x400 → c.toNat = 0x10000+hi*0x400+lo →
      Item c ['\\','u',p,q,r,s,'\\','u',p',q',r',s']

theorem shortEscape?_u (c : Char) : shortEscape? 'u' ≠ some c := nofun

theorem char_not_surrogate (c : Char) {hi : ℕ} (h : hi < 0x400) : c.toNat ≠ 0xd800+hi := by
  have hvalid : c.toNat < 0xd800 ∨ 0xdfff < c.toNat ∧ c.toNat < 0x110000 := c.valid
  omega

/-- The second character tells the escapes apart, and a surrogate is never a character. -/
theorem item_prefixFree : PrefixFree Item := by
  intro x y a b r s hx hy h
  cases hx with
  | plain hq hb _ =>
    cases hy with
    | plain =>
      simp only [List.cons_append,List.nil_append,List.cons.injEq] at h
      obtain ⟨rfl,rfl⟩ := h
      exact ⟨rfl,rfl,rfl⟩
    | short | unit | pair => exact absurd (List.cons.inj h).1 hb
  | short hc =>
    cases hy with
    | plain _ hb _ => exact absurd (List.cons.inj h).1.symm hb
    | short hd =>
      simp only [List.cons_append,List.nil_append,List.cons.injEq,true_and] at h
      obtain ⟨rfl,rfl⟩ := h
      exact ⟨Option.some.inj (hc.symm.trans hd),rfl,rfl⟩
    | unit | pair =>
      obtain ⟨rfl,_⟩ := List.cons.inj (List.cons.inj h).2
      exact absurd hc (shortEscape?_u x)
  | unit hc =>
    cases hy with
    | plain _ hb _ => exact absurd (List.cons.inj h).1.symm hb
    | short hd =>
      obtain ⟨rfl,_⟩ := List.cons.inj (List.cons.inj h).2
      exact absurd hd (shortEscape?_u y)
    | unit hd =>
      simp only [List.cons_append,List.nil_append,List.cons.injEq,true_and] at h
      obtain ⟨rfl,rfl,rfl,rfl,rfl⟩ := h
      exact ⟨Char.toNat_inj.mp (Option.some.inj (hc.symm.trans hd)),rfl,rfl⟩
    | pair hd hhi _ _ _ =>
      simp only [List.cons_append,List.nil_append,List.cons.injEq,true_and] at h
      obtain ⟨rfl,rfl,rfl,rfl,_⟩ := h
      exact absurd (Option.some.inj (hc.symm.trans hd)) (char_not_surrogate x hhi)
  | pair hc hhi hlo hlo' hval =>
    cases hy with
    | plain _ hb _ => exact absurd (List.cons.inj h).1.symm hb
    | short hd =>
      obtain ⟨rfl,_⟩ := List.cons.inj (List.cons.inj h).2
      exact absurd hd (shortEscape?_u y)
    | unit hd =>
      simp only [List.cons_append,List.nil_append,List.cons.injEq,true_and] at h
      obtain ⟨rfl,rfl,rfl,rfl,_⟩ := h
      exact absurd (Option.some.inj (hd.symm.trans hc)) (char_not_surrogate y hhi)
    | pair hd _ hlod _ hvald =>
      simp only [List.cons_append,List.nil_append,List.cons.injEq,true_and] at h
      obtain ⟨rfl,rfl,rfl,rfl,rfl,rfl,rfl,rfl,rfl⟩ := h
      have hhigh := Option.some.inj (hc.symm.trans hd)
      have hlow := Option.some.inj (hlo.symm.trans hlod)
      exact ⟨Char.toNat_inj.mp (by omega),rfl,rfl⟩

/-- No item begins with the closing quote. -/
theorem item_ne_quote {c : Char} {a r s : List Char} (h : Item c a) : a ++ r ≠ ['"'] ++ s := by
  cases h <;> simp_all

/-- A string literal and the text it denotes. -/
def Literal (value : String) (text : List Char) : Prop :=
  ∃ body, Sequence Item value.toList body ∧ text = '"'::(body ++ ['"'])

theorem literal_prefixFree : PrefixFree Literal := by
  rintro x y _ _ r s ⟨v,hv,rfl⟩ ⟨w,hw,rfl⟩ h
  simp only [List.cons_append,List.append_assoc,List.cons.injEq,true_and] at h
  have hstop (c : Char) (a r s : List Char) (hc : Item c a) := item_ne_quote (r := r) (s := s) hc
  obtain ⟨hxy,rfl,hrs⟩ := item_prefixFree.sequence_terminated hstop hv hw h
  exact ⟨String.toList_inj.mp hxy,rfl,hrs⟩

/-- A serializer of strings: what it writes is a literal of its input. -/
structure Serializer where
  toText : String → String
  toText_literal : ∀ s, Literal s (toText s).toList

theorem Serializer.append_inj (J : Serializer) {x y : String} {r s : List Char}
    (h : (J.toText x).toList ++ r = (J.toText y).toList ++ s) : x = y ∧ r = s := by
  obtain ⟨hxy,_,hrs⟩ := literal_prefixFree (J.toText_literal x) (J.toText_literal y) h
  exact ⟨hxy,hrs⟩

def hexChar (n : ℕ) : Char := if n < 10 then Char.ofNat (48+n) else Char.ofNat (87+n)

/-- Escaping that leaves alone all but quotes, backslashes and control characters. -/
def escapeChar (c : Char) : List Char :=
  if c = '"' then ['\\','"']
  else if c = '\\' then ['\\','\\']
  else if c = '\x08' then ['\\','b']
  else if c = '\x0c' then ['\\','f']
  else if c = '\n' then ['\\','n']
  else if c = '\r' then ['\\','r']
  else if c = '\t' then ['\\','t']
  else if c.toNat < 0x20 then ['\\','u','0','0',hexChar (c.toNat/16),hexChar (c.toNat%16)]
  else [c]

theorem codeUnit?_control : ∀ n < 0x20, codeUnit? '0' '0' (hexChar (n/16)) (hexChar (n%16)) = some n := by
  decide

theorem escapeChar_item (c : Char) : Item c (escapeChar c) := by
  unfold escapeChar
  split_ifs with hquote hback hb hf hn hr ht hcontrol
  · exact .short (by rw [hquote]; rfl)
  · exact .short (by rw [hback]; rfl)
  · exact .short (by rw [hb]; rfl)
  · exact .short (by rw [hf]; rfl)
  · exact .short (by rw [hn]; rfl)
  · exact .short (by rw [hr]; rfl)
  · exact .short (by rw [ht]; rfl)
  · exact .unit (codeUnit?_control _ hcontrol)
  · exact .plain hquote hback (by omega)

def minimalText (s : String) : String := String.ofList ('"'::(s.toList.flatMap escapeChar ++ ['"']))

theorem flatMap_escapeChar (cs : List Char) : Sequence Item cs (cs.flatMap escapeChar) := by
  induction cs with
  | nil => exact .nil
  | cons c cs ih => exact .cons (escapeChar_item c) ih

def minimal : Serializer where
  toText := minimalText
  toText_literal s := by
    refine ⟨_,flatMap_escapeChar s.toList,?_⟩
    simp [minimalText]

example : minimal.toText "a\"\n" = "\"a\\\"\\n\"" := by decide

end Avault.Foundation.JsonText
