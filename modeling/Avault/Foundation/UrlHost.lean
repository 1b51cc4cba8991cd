import Avault.Foundation.UrlText

/-! Where a URL text leads, as a URL parser reads it off the text before the query: the scheme, and
for a scheme like that of the web the host. -/
namespace Avault.Foundation.UrlText

/-- A parser takes a backslash for a slash here. -/
def isSlash (c : Char) : Bool := c == '/' || c == '\\'

/-- The host and the port, in what follows the colon of the scheme: behind the slashes, up to the
next slash, and without the user. -/
def hostOf (rest : List Char) : List Char :=
  ((rest.dropWhile isSlash).takeWhile fun c => !isSlash c).rtakeWhile (· ≠ '@')

def schemeText (text : List Char) : List Char := (cut ':' (read text).front).1

def hostText (text : List Char) : List Char := hostOf ((cut ':' (read text).front).2.getD [])

section Host

variable {rest pad : List Char}

/-- Spaces and controls behind a text are no part of its host, or they make it one that no parser
takes. -/
theorem hostOf_append_pad (h : ∀ c ∈ pad, isControlOrSpace c = true) :
    hostOf (rest ++ pad) = hostOf rest ∨ ∃ c ∈ hostOf (rest ++ pad), isControlOrSpace c = true := by
  have hplain {c : Char} (hc : c ∈ pad) : isSlash c = false ∧ c ≠ '@' := by
    have hcontrol := h c hc
    constructor
    · by_contra hslash
      rw [Bool.not_eq_false,isSlash,Bool.or_eq_true,beq_iff_eq,beq_iff_eq] at hslash
      obtain rfl | rfl := hslash <;> exact absurd hcontrol (by decide)
    · rintro rfl
      exact absurd hcontrol (by decide)
  cases hpad : pad with
  | nil => exact .inl (by rw [List.append_nil])
  | cons p pad' =>
    rw [← hpad]
    have hp : p ∈ pad := hpad ▸ List.mem_cons_self
    let s := rest.dropWhile isSlash
    have hdrop : (rest ++ pad).dropWhile isSlash = s ++ pad := by
      rw [List.dropWhile_append]
      split
      · next hempty =>
        have hs : s = [] := List.isEmpty_iff.mp hempty
        rw [hs,hpad,List.dropWhile_cons_of_neg (by rw [(hplain hp).1]; decide)]
        rfl
      · rfl
    have htake : pad.takeWhile (fun c => !isSlash c) = pad :=
      List.takeWhile_eq_self_iff.mpr fun c hc => by rw [(hplain hc).1]; rfl
    by_cases hslash : ∀ c ∈ s, isSlash c = false
    · right
      have hself : s.takeWhile (fun c => !isSlash c) = s :=
        List.takeWhile_eq_self_iff.mpr fun c hc => by rw [hslash c hc]; rfl
      have hhost : hostOf (rest ++ pad) = s.rtakeWhile (· ≠ '@') ++ pad := by
        have hreverse : ∀ c ∈ pad.reverse, decide (c ≠ '@') = true :=
          fun c hc => decide_eq_true (hplain (List.mem_reverse.mp hc)).2
        rw [hostOf,hdrop,List.takeWhile_append,if_pos (by rw [hself]),htake,List.rtakeWhile,List.reverse_append,
          List.takeWhile_append_of_pos hreverse,List.reverse_append,List.reverse_reverse]
        rfl
      exact ⟨p,by rw [hhost]; exact List.mem_append_right _ hp,h p hp⟩
    · left
      have hne : (s.takeWhile fun c => !isSlash c).length ≠ s.length := by
        intro heq
        have hself := (List.takeWhile_sublist fun c => !isSlash c).eq_of_length heq
        exact hslash fun c hc => by simpa using List.takeWhile_eq_self_iff.mp hself c hc
      rw [hostOf,hdrop,List.takeWhile_append,if_neg hne]
      rfl

end Host

section Insert

variable {base tail pair : List Char}

/-- A pair inserted behind the query leaves the scheme as it is, and the host too unless it puts a
space or control into it. -/
theorem host_insert (hbase : ∃ c ∈ base, isControlOrSpace c = false) (hhash : '#' ∉ base) (htail : IsFragment tail)
    (hpair : ∀ c ∈ pair, isControlOrSpace c = false) (hpairHash : '#' ∉ pair)
    (hscheme : ':' ∈ (read (base ++ tail)).front) :
    let built := base ++ (if '?' ∈ base then '&' else '?')::pair ++ tail
    schemeText built = schemeText (base ++ tail) ∧
      (hostText built = hostText (base ++ tail) ∨ ∃ c ∈ hostText built, isControlOrSpace c = true) := by
  intro built
  obtain ⟨pad,hpad,hfront⟩ := front_insert hbase hhash htail hpair hpairHash
  have hfront : (read built).front = (read (base ++ tail)).front ++ pad := hfront
  obtain ⟨scheme,rest,hsplit,hcolon⟩ := List.eq_append_cons_of_mem hscheme
  rw [hsplit,List.append_assoc,List.cons_append] at hfront
  simp only [schemeText,hostText,hfront,hsplit,cut_append hcolon,Option.getD_some,true_and]
  exact hostOf_append_pad hpad

end Insert
end Avault.Foundation.UrlText
