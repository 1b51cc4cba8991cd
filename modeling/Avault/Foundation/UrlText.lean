import Avault.Foundation.Hex
import Mathlib.Data.List.DropRight

/-! URL texts and form-urlencoded queries, read as a URL parser reads them. Spaces and C0 controls
around the text are dropped and so are tabs and newlines anywhere; then the fragment and the query
are split off. -/
namespace Avault.Foundation.UrlText

def isControlOrSpace (c : Char) : Bool := c ≤ ' '
def isTabOrNewline (c : Char) : Bool := c == '\t' || c == '\n' || c == '\r'

def dropTabsAndNewlines (text : List Char) : List Char := text.filter fun c => !isTabOrNewline c

/-- The text without what a parser drops. -/
def strip (text : List Char) : List Char :=
  dropTabsAndNewlines ((text.dropWhile isControlOrSpace).rdropWhile isControlOrSpace)

section Cut

variable {α : Type} [DecidableEq α]

/-- What comes before the first `c`, and what comes after it if there is one. -/
def cut (c : α) : List α → List α × Option (List α)
  | [] => ([],none)
  | a::s => if a = c then ([],some s) else (a::(cut c s).1,(cut c s).2)

variable {c : α} {s t : List α}

theorem cut_of_notMem (h : c ∉ s) : cut c s = (s,none) := by
  induction s with
  | nil => rfl
  | cons a s ih =>
    rw [List.mem_cons,not_or] at h
    rw [cut,if_neg (Ne.symm h.1),ih h.2]

theorem cut_append (h : c ∉ s) : cut c (s ++ c::t) = (s,some t) := by
  induction s with
  | nil => exact if_pos rfl
  | cons a s ih =>
    rw [List.mem_cons,not_or] at h
    rw [List.cons_append,cut,if_neg (Ne.symm h.1),ih h.2]

end Cut

/-- What a URL text is made of: the part before the query, the query and the fragment. -/
structure Parts where
  front : List Char
  query : Option (List Char)
  fragment : Option (List Char)
deriving DecidableEq, Repr

def read (text : List Char) : Parts where
  front := (cut '?' (cut '#' (strip text)).1).1
  query := (cut '?' (cut '#' (strip text)).1).2
  fragment := (cut '#' (strip text)).2

/-! Queries. -/

def percent : UInt8 := 0x25
def ampersand : UInt8 := 0x26
def plus : UInt8 := 0x2b
def equals : UInt8 := 0x3d
def space : UInt8 := 0x20

/-- The byte that an escape stands for. -/
def unescape (b high low : UInt8) : Option UInt8 :=
  if b = percent then do
    let high ← Hex.value high
    let low ← Hex.value low
    return high*16+low
  else none

/-- A percent sign that no two hexadecimal digits follow stands for itself. -/
def percentDecode : Bytes → Bytes
  | [] => []
  | [b] => [b]
  | [b,c] => [b,c]
  | b::high::low::rest =>
    match unescape b high low with
    | some byte => byte::percentDecode rest
    | none => b::percentDecode (high::low::rest)

def formDecode (text : Bytes) : Bytes :=
  percentDecode (text.map fun b => if b = plus then space else b)

def formPair (piece : Bytes) : Bytes × Bytes :=
  (formDecode (cut equals piece).1,formDecode ((cut equals piece).2.getD []))

def formPairs (query : Bytes) : List (Bytes × Bytes) :=
  ((query.splitOn ampersand).filter (· ≠ [])).map formPair

def bytesOf (text : List Char) : Bytes := text.flatMap String.utf8EncodeChar

/-- The pairs of a text's query; without a query there are none. -/
def Parts.pairs (p : Parts) : List (Bytes × Bytes) := formPairs (bytesOf (p.query.getD []))

/-! Encoding. -/

def isUnreserved (b : UInt8) : Bool :=
  (0x41 ≤ b && b ≤ 0x5a) || (0x61 ≤ b && b ≤ 0x7a) || (0x30 ≤ b && b ≤ 0x39) || b == 0x2d || b == 0x2e ||
    b == 0x5f || b == 0x7e

def hexDigit (n : UInt8) : UInt8 := if n < 10 then 0x30+n else 0x37+n

def formEncodeByte (b : UInt8) : Bytes :=
  if isUnreserved b then [b]
  else if b = space then [plus]
  else [percent,hexDigit (b >>> 4),hexDigit (b &&& 0x0f)]

def formEncode (value : Bytes) : Bytes := value.flatMap formEncodeByte

/-- Unreserved characters, plus and equals signs and percent escapes. -/
inductive FormText : List Char → Prop
  | nil : FormText []
  | char {c s} : c.isAlphanum ∨ c ∈ "-._~+=".toList → FormText s → FormText (c::s)
  | escape {high low s} : high ∈ "0123456789ABCDEF".toList → low ∈ "0123456789ABCDEF".toList →
    FormText s → FormText ('%'::high::low::s)

theorem FormText.append {s t : List Char} (hs : FormText s) (ht : FormText t) : FormText (s ++ t) := by
  induction hs with
  | nil => exact ht
  | char hc _ ih => exact .char hc ih
  | escape hhigh hlow _ ih => exact .escape hhigh hlow ih

/-! Decoding undoes encoding. -/

theorem percentDecode_cons {b : UInt8} (h : b ≠ percent) (rest : Bytes) :
    percentDecode (b::rest) = b::percentDecode rest := by
  match rest with
  | [] => rfl
  | [_] => rfl
  | _::_::_ => rw [percentDecode,unescape,if_neg h]

theorem unescape_hexDigit (b : UInt8) :
    unescape percent (hexDigit (b >>> 4)) (hexDigit (b &&& 0x0f)) = some b :=
  Hex.forall_byte (P := fun b => unescape percent (hexDigit (b >>> 4)) (hexDigit (b &&& 0x0f)) = some b)
    (by decide +kernel) b

/-- No digit of an escape is read as anything else. -/
theorem hexDigit_plain (b : UInt8) :
    hexDigit (b >>> 4) ∉ [plus,ampersand,equals] ∧ hexDigit (b &&& 0x0f) ∉ [plus,ampersand,equals] :=
  Hex.forall_byte (P := fun b => hexDigit (b >>> 4) ∉ [plus,ampersand,equals] ∧
    hexDigit (b &&& 0x0f) ∉ [plus,ampersand,equals]) (by decide +kernel) b

theorem isUnreserved_plain {b : UInt8} (h : isUnreserved b = true) :
    b ≠ percent ∧ b ∉ [plus,ampersand,equals] := by
  revert h
  exact Hex.forall_byte (P := fun b => isUnreserved b = true → b ≠ percent ∧ b ∉ [plus,ampersand,equals])
    (by decide +kernel) b

theorem formDecode_cons {b : UInt8} (h : b ≠ percent) (hplus : b ≠ plus) (rest : Bytes) :
    formDecode (b::rest) = b::formDecode rest := by
  rw [formDecode,List.map_cons,if_neg hplus,percentDecode_cons h,formDecode]

theorem formDecode_encodeByte (b : UInt8) (rest : Bytes) :
    formDecode (formEncodeByte b ++ rest) = b::formDecode rest := by
  unfold formEncodeByte
  split
  · next h =>
    obtain ⟨hpercent,hplain⟩ := isUnreserved_plain h
    exact formDecode_cons hpercent (fun heq => hplain (heq ▸ List.mem_cons_self)) rest
  · split
    · next h =>
      rw [h]
      exact percentDecode_cons (by decide) _
    · obtain ⟨hhigh,hlow⟩ := hexDigit_plain b
      simp only [List.mem_cons,not_or] at hhigh hlow
      have hpercent : percent ≠ plus := by decide
      simp only [formDecode,List.cons_append,List.nil_append,List.map_cons,if_neg hhigh.1,if_neg hlow.1,
        if_neg hpercent,percentDecode,unescape_hexDigit]

theorem formDecode_encode (value : Bytes) : formDecode (formEncode value) = value := by
  induction value with
  | nil => rfl
  | cons b value ih => rw [formEncode,List.flatMap_cons,formDecode_encodeByte,← formEncode,ih]

/-- An encoded text holds no separator. -/
theorem formEncode_plain (value : Bytes) : ampersand ∉ formEncode value ∧ equals ∉ formEncode value := by
  have hbyte (b : UInt8) : ampersand ∉ formEncodeByte b ∧ equals ∉ formEncodeByte b :=
    Hex.forall_byte (P := fun b => ampersand ∉ formEncodeByte b ∧ equals ∉ formEncodeByte b)
      (by decide +kernel) b
  simp only [formEncode,List.mem_flatMap,not_exists,not_and]
  exact ⟨fun b _ => (hbyte b).1,fun b _ => (hbyte b).2⟩

theorem formPairs_append (query rest : Bytes) :
    formPairs (query ++ ampersand::rest) = formPairs query ++ formPairs rest := by
  simp only [formPairs,List.splitOn_append_cons_self,List.filter_append,List.map_append]

/-- One encoded pair is read back as itself. -/
theorem formPairs_encode (name value : Bytes) :
    formPairs (formEncode name ++ equals::formEncode value) = [(name,value)] := by
  have hno : ampersand ∉ formEncode name ++ equals::formEncode value := by
    simp [formEncode_plain,show ampersand ≠ equals by decide]
  rw [formPairs,List.splitOn_eq_singleton hno,List.filter_cons_of_pos (by simp),List.filter_nil,
    List.map_singleton,formPair,cut_append (formEncode_plain name).2,Option.getD_some,formDecode_encode,
    formDecode_encode]

/-! Spaces and C0 controls at the end of a query belong to its last pair. -/

section Pad

variable {s pad : Bytes}

theorem value_of_le_space {b : UInt8} (h : b ≤ space) : Hex.value b = none := by
  revert h
  exact Hex.forall_byte (P := fun b => b ≤ space → Hex.value b = none) (by decide +kernel) b

theorem unescape_of_le_space {b high low : UInt8} (h : high ≤ space ∨ low ≤ space) :
    unescape b high low = none := by
  unfold unescape
  split
  · obtain h | h := h
    · rw [value_of_le_space h]
      rfl
    · rw [value_of_le_space h]
      cases Hex.value high <;> rfl
  · rfl

theorem ne_of_le_space {b c : UInt8} (h : b ≤ space) (hc : space < c) : b ≠ c := by
  rintro rfl
  exact absurd hc (UInt8.not_lt.mpr h)

theorem percentDecode_pad (h : ∀ b ∈ pad, b ≤ space) : percentDecode pad = pad := by
  induction pad with
  | nil => rfl
  | cons b pad ih =>
    have hpercent : b ≠ percent := ne_of_le_space (h b List.mem_cons_self) (by decide)
    rw [percentDecode_cons hpercent,ih fun b hb => h b (List.mem_cons_of_mem _ hb)]

theorem percentDecode_cons_pad (h : ∀ b ∈ pad, b ≤ space) (b : UInt8) :
    percentDecode (b::pad) = b::pad := by
  match pad,h with
  | [],_ => rfl
  | [_],_ => rfl
  | c::_::_,h =>
    rw [percentDecode,unescape_of_le_space (.inl (h c List.mem_cons_self))]
    exact congrArg _ (percentDecode_pad h)

theorem percentDecode_append_pad (h : ∀ b ∈ pad, b ≤ space) :
    percentDecode (s ++ pad) = percentDecode s ++ pad := by
  induction s using percentDecode.induct with
  | case1 => exact percentDecode_pad h
  | case2 b => exact percentDecode_cons_pad h b
  | case3 b c =>
    match pad,h with
    | [],_ => rfl
    | d::pad,h =>
      change percentDecode (b::c::d::pad) = b::c::d::pad
      rw [percentDecode,unescape_of_le_space (.inr (h d List.mem_cons_self))]
      exact congrArg _ (percentDecode_cons_pad h c)
  | case4 b high low rest byte heq ih =>
    rw [percentDecode,List.cons_append,List.cons_append,List.cons_append,percentDecode,heq]
    exact congrArg _ ih
  | case5 b high low rest heq ih =>
    rw [percentDecode,List.cons_append,List.cons_append,List.cons_append,percentDecode,heq]
    exact congrArg _ ih

theorem formDecode_append_pad (h : ∀ b ∈ pad, b ≤ space) :
    formDecode (s ++ pad) = formDecode s ++ pad := by
  have hpad : pad.map (fun b => if b = plus then space else b) = pad := by
    refine (List.map_congr_left fun b hb => ?_).trans (List.map_id pad)
    exact if_neg (ne_of_le_space (h b hb) (by decide))
  rw [formDecode,List.map_append,hpad,percentDecode_append_pad h,formDecode]

/-- The bytes of all names and values. -/
def size (pairs : List (Bytes × Bytes)) : ℕ :=
  (pairs.map fun pair => pair.1.length+pair.2.length).sum

theorem size_append (ps qs : List (Bytes × Bytes)) : size (ps ++ qs) = size ps + size qs := by
  simp [size]

theorem size_formPairs_piece (h : ampersand ∉ s) :
    size (formPairs s) = (formPair s).1.length + (formPair s).2.length := by
  rw [formPairs,List.splitOn_eq_singleton h]
  by_cases hs : s = []
  · subst hs
    rfl
  · simp [hs,size]

theorem size_formPair_append_pad (h : ∀ b ∈ pad, b ≤ space) :
    (formPair (s ++ pad)).1.length + (formPair (s ++ pad)).2.length =
      (formPair s).1.length + (formPair s).2.length + pad.length := by
  have hpad : equals ∉ pad := fun hmem => ne_of_le_space (h equals hmem) (by decide) rfl
  by_cases hs : equals ∈ s
  · obtain ⟨a,b,rfl,ha⟩ := List.eq_append_cons_of_mem hs
    rw [formPair,formPair,List.append_assoc,List.cons_append,cut_append ha,cut_append ha]
    simp only [Option.getD_some,formDecode_append_pad h,List.length_append]
    omega
  · rw [formPair,formPair,cut_of_notMem hs,cut_of_notMem (by simp [hs,hpad])]
    simp only [Option.getD_none,formDecode_append_pad h,List.length_append]
    omega

/-- The pad is all that is added, so the pairs stay the same only where there is no pad. -/
theorem formPairs_append_pad (h : ∀ b ∈ pad, b ≤ space) :
    formPairs (s ++ pad) = formPairs s ↔ pad = [] := by
  have hpad : ampersand ∉ pad := fun hmem => ne_of_le_space (h ampersand hmem) (by decide) rfl
  -- on the last piece of the query, where the pad lands
  have hsize {s : Bytes} (hs : ampersand ∉ s) :
      size (formPairs (s ++ pad)) = size (formPairs s) + pad.length := by
    rw [size_formPairs_piece hs,size_formPairs_piece (by simp [hs,hpad]),size_formPair_append_pad h]
  have hall : size (formPairs (s ++ pad)) = size (formPairs s) + pad.length := by
    by_cases hs : ampersand ∈ s
    · obtain ⟨a,b,heq,hb⟩ := List.eq_append_cons_of_mem (List.mem_reverse.mpr hs)
      have hs : s = b.reverse ++ ampersand::a.reverse := by
        rw [← List.reverse_reverse s,heq]
        simp
      rw [hs,List.append_assoc,List.cons_append,formPairs_append,formPairs_append,size_append,size_append,
        hsize (by simpa using hb)]
      omega
    · exact hsize hs
  constructor
  · intro heq
    rw [heq] at hall
    exact List.length_eq_zero_iff.mp (by omega)
  · rintro rfl
    rw [List.append_nil]

end Pad

/-! Insertion of a text between the query and the fragment. -/

/-- The text has a fragment, or nothing that a parser would trim stands at its end. -/
def KeepsEnd (text : List Char) : Prop :=
  '#' ∈ text ∨ ∀ c ∈ (dropTabsAndNewlines text).getLast?, isControlOrSpace c = false

instance (text : List Char) : Decidable (KeepsEnd text) := inferInstanceAs (Decidable (_ ∨ _))

/-- The fragment with its hash sign, or nothing. -/
def IsFragment (text : List Char) : Prop := text = [] ∨ ∃ f, text = '#'::f

theorem isFragment_dropWhile (text : List Char) : IsFragment (text.dropWhile (· ≠ '#')) := by
  have hhead := List.head?_dropWhile_not (· ≠ '#') text
  cases hdrop : text.dropWhile (· ≠ '#') with
  | nil => exact .inl rfl
  | cons c f =>
    rw [hdrop] at hhead
    obtain rfl : c = '#' := by simpa using hhead
    exact .inr ⟨f,rfl⟩

section Insert

variable {base tail ins s t : List Char} {c : Char}

theorem isTabOrNewline_false (h : isControlOrSpace c = false) : isTabOrNewline c = false := by
  by_contra hc
  rw [Bool.not_eq_false,isTabOrNewline,Bool.or_eq_true,Bool.or_eq_true] at hc
  simp only [beq_iff_eq] at hc
  obtain (rfl | rfl) | rfl := hc <;> exact absurd h (by decide)

@[simp] theorem dropTabsAndNewlines_append :
    dropTabsAndNewlines (s ++ t) = dropTabsAndNewlines s ++ dropTabsAndNewlines t := List.filter_append _ _

theorem dropTabsAndNewlines_visible (h : ∀ c ∈ s, isControlOrSpace c = false) :
    dropTabsAndNewlines s = s := by
  refine List.filter_eq_self.mpr fun c hc => ?_
  rw [isTabOrNewline_false (h c hc)]
  rfl

theorem dropTabsAndNewlines_cons (h : isControlOrSpace c = false) :
    dropTabsAndNewlines (c::s) = c::dropTabsAndNewlines s :=
  List.filter_cons_of_pos (by rw [isTabOrNewline_false h]; rfl)

theorem dropWhile_append_visible (h : ∃ c ∈ s, isControlOrSpace c = false) :
    (s ++ t).dropWhile isControlOrSpace = s.dropWhile isControlOrSpace ++ t := by
  obtain ⟨c,hc,hvisible⟩ := h
  have hne : s.dropWhile isControlOrSpace ≠ [] := fun hnil =>
    absurd (List.dropWhile_eq_nil_iff.mp hnil c hc) (by simp [hvisible])
  rw [List.dropWhile_append,if_neg (by simpa using hne)]

theorem rdropWhile_append (h : t.rdropWhile isControlOrSpace ≠ []) :
    (s ++ t).rdropWhile isControlOrSpace = s ++ t.rdropWhile isControlOrSpace := by
  rw [List.rdropWhile,List.reverse_append,List.dropWhile_append,if_neg]
  · simp [List.rdropWhile]
  · simpa [List.rdropWhile] using h

theorem rdropWhile_cons (h : isControlOrSpace c = false) :
    (c::t).rdropWhile isControlOrSpace = c::t.rdropWhile isControlOrSpace := by
  rw [List.rdropWhile,List.reverse_cons,List.dropWhile_append]
  split
  · next hempty => simp [h,List.rdropWhile,List.isEmpty_iff.mp hempty]
  · simp [List.rdropWhile]

theorem rdropWhile_visible (h : ∀ c ∈ ins, isControlOrSpace c = false) :
    ins.rdropWhile isControlOrSpace = ins :=
  List.rdropWhile_eq_self_iff.mpr fun hl => by simp [h _ (List.getLast_mem hl)]

/-- Before a fragment, and where the text is inserted, nothing is trimmed at the end. -/
theorem strip_append_visible (hbase : ∃ c ∈ base, isControlOrSpace c = false)
    (ht : t.rdropWhile isControlOrSpace ≠ []) : strip (base ++ t) =
      dropTabsAndNewlines (base.dropWhile isControlOrSpace) ++
        dropTabsAndNewlines (t.rdropWhile isControlOrSpace) := by
  rw [strip,dropWhile_append_visible hbase,rdropWhile_append ht,dropTabsAndNewlines_append]

/-- Trimming takes no other character away. -/
theorem mem_dropWhile (h : isControlOrSpace c = false) : c ∈ s.dropWhile isControlOrSpace ↔ c ∈ s := by
  conv_rhs => rw [← List.takeWhile_append_dropWhile (p := isControlOrSpace) (l := s),List.mem_append]
  refine ⟨.inr,fun hmem => hmem.resolve_left fun hc => ?_⟩
  exact absurd (List.mem_takeWhile_imp hc) (by simp [h])

theorem mem_rdropWhile (h : isControlOrSpace c = false) : c ∈ s.rdropWhile isControlOrSpace ↔ c ∈ s := by
  rw [List.rdropWhile,List.mem_reverse,mem_dropWhile h,List.mem_reverse]

theorem mem_dropTabsAndNewlines (h : isControlOrSpace c = false) : c ∈ dropTabsAndNewlines s ↔ c ∈ s := by
  simp [dropTabsAndNewlines,isTabOrNewline_false h]

/-- What is trimmed at the end of a text without a fragment, less the tabs and newlines, is empty
just when the text keeps its end. -/
theorem trimmed_eq_nil (hbase : ∃ c ∈ base, isControlOrSpace c = false) (hhash : '#' ∉ base) :
    dropTabsAndNewlines ((base.dropWhile isControlOrSpace).rtakeWhile isControlOrSpace) = [] ↔
      KeepsEnd base := by
  let u := base.dropWhile isControlOrSpace
  have hsplit : base = base.takeWhile isControlOrSpace ++
      (u.rdropWhile isControlOrSpace ++ u.rtakeWhile isControlOrSpace) := by
    rw [List.rdropWhile_append_rtakeWhile]
    exact List.takeWhile_append_dropWhile.symm
  obtain ⟨c,hc,hvisible⟩ := hbase
  have hne : u.rdropWhile isControlOrSpace ≠ [] :=
    List.ne_nil_of_mem ((mem_rdropWhile hvisible).mpr ((mem_dropWhile hvisible).mpr hc))
  have hlast : isControlOrSpace ((u.rdropWhile isControlOrSpace).getLast hne) = false :=
    Bool.eq_false_of_not_eq_true (List.rdropWhile_last_not _ _ hne)
  -- the last character that is neither a tab nor a newline is the pad's, or else this one
  have hdrop : dropTabsAndNewlines base = dropTabsAndNewlines (base.takeWhile isControlOrSpace ++
      (u.rdropWhile isControlOrSpace).dropLast) ++ [(u.rdropWhile isControlOrSpace).getLast hne] ++
      dropTabsAndNewlines (u.rtakeWhile isControlOrSpace) := by
    conv_lhs => rw [hsplit,← List.dropLast_append_getLast hne]
    simp [dropTabsAndNewlines_cons hlast]
  have hpad {c : Char} (h : c ∈ dropTabsAndNewlines (u.rtakeWhile isControlOrSpace)) :
      isControlOrSpace c = true := List.mem_rtakeWhile_imp (List.mem_of_mem_filter h)
  constructor
  · intro hnil
    refine .inr fun c hc => ?_
    rw [hdrop,hnil,List.append_nil,List.getLast?_concat,Option.mem_some_iff] at hc
    exact hc ▸ hlast
  · rintro (h | h)
    · exact absurd h hhash
    · by_contra hne
      have hvisible := h _ (by
        rw [hdrop,List.getLast?_append_of_ne_nil _ hne,List.getLast?_eq_some_getLast hne]
        rfl)
      rw [hpad (List.getLast_mem hne)] at hvisible
      cases hvisible

/-- A text is inserted before the fragment. What a parser trims off the end of the original
stands before the inserted text, unless there is nothing of it. -/
theorem strip_insert (hbase : ∃ c ∈ base, isControlOrSpace c = false) (hhash : '#' ∉ base)
    (htail : IsFragment tail) (hne : ins ≠ []) (hins : ∀ c ∈ ins, isControlOrSpace c = false) :
    ∃ core pad rest, strip (base ++ tail) = core ++ rest ∧
      strip (base ++ ins ++ tail) = core ++ pad ++ ins ++ rest ∧ IsFragment rest ∧
      (∀ c, isControlOrSpace c = false → (c ∈ core ↔ c ∈ base)) ∧
      (∀ c ∈ pad, isControlOrSpace c = true) ∧ (pad = [] ↔ KeepsEnd (base ++ tail)) := by
  have hinsert {t : List Char} (ht : t.rdropWhile isControlOrSpace ≠ [] ∨ t = []) :
      strip (base ++ (ins ++ t)) = dropTabsAndNewlines (base.dropWhile isControlOrSpace) ++ ins ++
        dropTabsAndNewlines (t.rdropWhile isControlOrSpace) := by
    have hdrop : (ins ++ t).rdropWhile isControlOrSpace = ins ++ t.rdropWhile isControlOrSpace := by
      obtain ht | rfl := ht
      · exact rdropWhile_append ht
      · simp [rdropWhile_visible hins]
    rw [strip_append_visible hbase (by rw [hdrop]; simp [hne]),hdrop,dropTabsAndNewlines_append,
      dropTabsAndNewlines_visible hins,List.append_assoc]
  obtain rfl | ⟨f,rfl⟩ := htail
  · refine ⟨strip base,
      dropTabsAndNewlines ((base.dropWhile isControlOrSpace).rtakeWhile isControlOrSpace),[],?_,?_,
      .inl rfl,fun c hc => ?_,?_,?_⟩
    · simp
    · rw [List.append_assoc,hinsert (.inr rfl),strip,← dropTabsAndNewlines_append,
        List.rdropWhile_append_rtakeWhile]
      rfl
    · rw [strip,mem_dropTabsAndNewlines hc,mem_rdropWhile hc,mem_dropWhile hc]
    · exact fun c hc => List.mem_rtakeWhile_imp (List.mem_of_mem_filter hc)
    · rw [List.append_nil]
      exact trimmed_eq_nil hbase hhash
  · have hhashVisible : isControlOrSpace '#' = false := rfl
    have hrest : ('#'::f).rdropWhile isControlOrSpace = '#'::f.rdropWhile isControlOrSpace :=
      rdropWhile_cons hhashVisible
    have hrestNe : ('#'::f).rdropWhile isControlOrSpace ≠ [] := by simp [hrest]
    refine ⟨dropTabsAndNewlines (base.dropWhile isControlOrSpace),[],
      '#'::dropTabsAndNewlines (f.rdropWhile isControlOrSpace),?_,?_,.inr ⟨_,rfl⟩,fun c hc => ?_,
      fun c hc => (List.not_mem_nil hc).elim,?_⟩
    · rw [strip_append_visible hbase hrestNe,hrest,dropTabsAndNewlines_cons hhashVisible]
    · rw [List.append_assoc,hinsert (.inl hrestNe),hrest,dropTabsAndNewlines_cons hhashVisible,
        List.append_nil]
    · rw [mem_dropTabsAndNewlines hc,mem_dropWhile hc]
    · exact iff_of_true rfl (.inl (by simp))

theorem bytesOf_append : bytesOf (s ++ t) = bytesOf s ++ bytesOf t := List.flatMap_append

theorem bytesOf_eq_nil : bytesOf s = [] ↔ s = [] := by
  cases s with
  | nil => simp [bytesOf]
  | cons c s => simp [bytesOf,String.utf8EncodeChar_ne_nil]

theorem utf8EncodeChar_controlOrSpace (h : isControlOrSpace c = true) :
    ∀ b ∈ String.utf8EncodeChar c, b ≤ space := by
  have hc : c.val.toNat ≤ 0x20 := of_decide_eq_true h
  have hencode : String.utf8EncodeChar c = [UInt8.ofNat c.val.toNat] := if_pos (by omega)
  rw [hencode,List.forall_mem_singleton,UInt8.le_iff_toNat_le,UInt8.toNat_ofNat_of_lt' (by
    change c.val.toNat < 256
    omega)]
  exact hc

theorem bytesOf_pad (h : ∀ c ∈ s, isControlOrSpace c = true) : ∀ b ∈ bytesOf s, b ≤ space := by
  intro b hb
  obtain ⟨c,hc,hb⟩ := List.mem_flatMap.mp hb
  exact utf8EncodeChar_controlOrSpace (h c hc) b hb

theorem cut_fragment {rest : List Char} (hs : '#' ∉ s) (hrest : IsFragment rest) :
    cut '#' (s ++ rest) = (s,(cut '#' rest).2) := by
  obtain rfl | ⟨f,rfl⟩ := hrest
  · rw [List.append_nil,cut_of_notMem hs]
    rfl
  · rw [cut_append hs]
    rfl

section Pair

variable {pair : List Char} (hbase : ∃ c ∈ base, isControlOrSpace c = false) (hhash : '#' ∉ base)
  (htail : IsFragment tail) (hpair : ∀ c ∈ pair, isControlOrSpace c = false) (hpairHash : '#' ∉ pair)

include hbase hhash htail hpair hpairHash

/-- Up to the fragment, the new text is the original one with the inserted text behind it, and
what a parser trims off the end of the original between them. -/
theorem cut_insert :
    let inserted := (if '?' ∈ base then '&' else '?')::pair
    ∃ core pad fragment, cut '#' (strip (base ++ tail)) = (core,fragment) ∧
      cut '#' (strip (base ++ inserted ++ tail)) = (core ++ pad ++ inserted,fragment) ∧
      ('?' ∈ core ↔ '?' ∈ base) ∧ (∀ c ∈ pad, isControlOrSpace c = true) ∧ (pad = [] ↔ KeepsEnd (base ++ tail)) := by
  intro inserted
  have hinserted : ∀ c ∈ inserted, isControlOrSpace c = false := by
    refine List.forall_mem_cons.mpr ⟨?_,hpair⟩
    split <;> rfl
  have hinsertedHash : '#' ∉ inserted := by
    refine List.not_mem_cons_of_ne_of_not_mem ?_ hpairHash
    split <;> decide
  obtain ⟨core,pad,rest,horiginal,hbuilt,hrest,hcore,hpad,hkeeps⟩ :=
    strip_insert hbase hhash htail (List.cons_ne_nil _ _) hinserted
  have hcoreHash : '#' ∉ core := fun h => hhash ((hcore '#' rfl).mp h)
  have hno : '#' ∉ core ++ pad ++ inserted := by
    rw [List.mem_append,List.mem_append]
    rintro ((h | h) | h)
    · exact hcoreHash h
    · exact absurd (hpad '#' h) (by decide)
    · exact hinsertedHash h
  refine ⟨core,pad,(cut '#' rest).2,?_,?_,hcore '?' rfl,hpad,hkeeps⟩
  · rw [horiginal,cut_fragment hcoreHash hrest]
  · rw [hbuilt,cut_fragment hno hrest]

/-- One more pair, inserted behind the query, is all that a reader finds in the new text besides
what it found in the original, just when the original keeps its end. -/
theorem read_insert :
    let inserted := (if '?' ∈ base then '&' else '?')::pair
    (read (base ++ inserted ++ tail)).fragment = (read (base ++ tail)).fragment ∧
      ((read (base ++ inserted ++ tail)).front = (read (base ++ tail)).front ∧
        (read (base ++ inserted ++ tail)).pairs =
          (read (base ++ tail)).pairs ++ formPairs (bytesOf pair) ↔ KeepsEnd (base ++ tail)) := by
  intro inserted
  obtain ⟨core,pad,fragment,hcutOriginal,hcutBuilt,hcore,hpad,hkeeps⟩ := cut_insert hbase hhash htail hpair hpairHash
  have hcutBuilt : cut '#' (strip (base ++ inserted ++ tail)) = (core ++ pad ++ inserted,fragment) := hcutBuilt
  refine ⟨by rw [read,read,hcutOriginal,hcutBuilt],?_⟩
  rw [← hkeeps,Parts.pairs,Parts.pairs,read,read,hcutOriginal,hcutBuilt]
  by_cases hquery : '?' ∈ core
  · -- the inserted text lands behind the query, and the pad on its last pair
    obtain ⟨front,query,rfl,hfront⟩ := List.eq_append_cons_of_mem hquery
    have hsep : inserted = '&'::pair := congrArg (·::pair) (if_pos (hcore.mp hquery))
    have hbytes : bytesOf (query ++ (pad ++ '&'::pair)) =
        (bytesOf query ++ bytesOf pad) ++ ampersand::bytesOf pair := by
      rw [bytesOf_append,bytesOf_append,List.append_assoc]
      rfl
    rw [hsep,List.append_assoc,List.append_assoc,List.cons_append,cut_append hfront,cut_append hfront]
    simp only [Option.getD_some,true_and]
    rw [hbytes,formPairs_append,List.append_left_inj,formPairs_append_pad (bytesOf_pad hpad),
      bytesOf_eq_nil]
  · -- it begins a query, and the pad is left in front of it
    have hsep : inserted = '?'::pair := congrArg (·::pair) (if_neg fun h => hquery (hcore.mpr h))
    have hno : '?' ∉ core ++ pad := by
      rw [List.mem_append]
      rintro (h | h)
      · exact hquery h
      · exact absurd (hpad '?' h) (by decide)
    rw [hsep,cut_append hno,cut_of_notMem hquery]
    simp [formPairs,bytesOf]

/-- Before the query, the new text has no more than spaces and controls behind the original one. -/
theorem front_insert :
    let inserted := (if '?' ∈ base then '&' else '?')::pair
    ∃ pad, (∀ c ∈ pad, isControlOrSpace c = true) ∧
      (read (base ++ inserted ++ tail)).front = (read (base ++ tail)).front ++ pad := by
  intro inserted
  obtain ⟨core,pad,fragment,hcutOriginal,hcutBuilt,hcore,hpad,-⟩ := cut_insert hbase hhash htail hpair hpairHash
  have hcutBuilt : cut '#' (strip (base ++ inserted ++ tail)) = (core ++ pad ++ inserted,fragment) := hcutBuilt
  rw [read,read,hcutOriginal,hcutBuilt]
  by_cases hquery : '?' ∈ core
  · obtain ⟨front,query,rfl,hfront⟩ := List.eq_append_cons_of_mem hquery
    refine ⟨[],nofun,?_⟩
    rw [List.append_assoc,List.append_assoc,List.cons_append,cut_append hfront,cut_append hfront,List.append_nil]
  · have hsep : inserted = '?'::pair := congrArg (·::pair) (if_neg fun h => hquery (hcore.mpr h))
    have hno : '?' ∉ core ++ pad := by
      rw [List.mem_append]
      rintro (h | h)
      · exact hquery h
      · exact absurd (hpad '?' h) (by decide)
    exact ⟨pad,hpad,by rw [hsep,cut_append hno,cut_of_notMem hquery]⟩

end Pair

/-- Where there is anything before the query, the text is not all spaces up to its fragment. -/
theorem visible_of_front (hfront : (read (base ++ tail)).front ≠ []) (htail : IsFragment tail) :
    ∃ c ∈ base, isControlOrSpace c = false := by
  by_contra hno
  push Not at hno
  have hbase : ∀ c ∈ base, isControlOrSpace c = true := fun c hc => by simpa using hno c hc
  refine hfront ?_
  obtain rfl | ⟨f,rfl⟩ := htail
  · have hstrip : strip (base ++ []) = [] := by
      rw [strip,List.dropWhile_append_of_pos hbase]
      rfl
    rw [read,hstrip]
    rfl
  · have hstrip : strip (base ++ '#'::f) =
        '#'::dropTabsAndNewlines (f.rdropWhile isControlOrSpace) := by
      have hhash : isControlOrSpace '#' = false := rfl
      rw [strip,List.dropWhile_append_of_pos hbase,List.dropWhile_cons_of_neg (by simp [hhash]),
        rdropWhile_cons hhash,dropTabsAndNewlines_cons hhash]
    rw [read,hstrip]
    rfl

end Insert

end Avault.Foundation.UrlText
