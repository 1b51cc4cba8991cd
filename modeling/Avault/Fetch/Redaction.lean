import Avault.Error
import Avault.Foundation.Bytes
import Avault.Foundation.Replace

/-! Taking the credential out of a fetch response. -/
namespace Avault.Fetch
open Foundation Foundation.Replace

def maxFetchBodyBytes : ℕ := 8*1024*1024

def fetchRedaction : Bytes := utf8 "[avault-redacted]"

/-- `slice::windows`. -/
def windows (n : ℕ) (slice : Bytes) : List Bytes :=
  (List.range (slice.length+1-n)).map fun i => (slice.drop i).take n

def findSubslice (haystack needle : Bytes) : Option ℕ :=
  (windows needle.length haystack).findIdx? fun window => window == needle

/-- On a 64-bit target. -/
def usizeMax : ℕ := 2^64-1

def checkedMul (a b : ℕ) : Option ℕ := if a*b ≤ usizeMax then some (a*b) else none
def checkedAdd (a b : ℕ) : Option ℕ := if a+b ≤ usizeMax then some (a+b) else none

def redactedBodyLen (bodyLen matched needleLen redactionLen : ℕ) : Result ℕ :=
  if redactionLen ≥ needleLen then do
    let growth ← orError "fetch response body exceeds size limit"
      (checkedMul matched (redactionLen-needleLen))
    orError "fetch response body exceeds size limit" (checkedAdd bodyLen growth)
  else .ok (bodyLen-matched*(needleLen-redactionLen))

theorem windows_getElem? {n i : ℕ} {slice : Bytes} (h : i+n ≤ slice.length) :
    (windows n slice)[i]? = some ((slice.drop i).take n) := by
  have hi : i < slice.length+1-n := by omega
  simp [windows,hi]

theorem take_drop_eq_iff {haystack needle : Bytes} {i : ℕ} :
    (haystack.drop i).take needle.length = needle ↔ needle <+: haystack.drop i := by
  rw [List.prefix_iff_eq_take]
  exact eq_comm

theorem findSubslice_eq_none {haystack needle : Bytes} (h : findSubslice haystack needle = none) :
    ¬ needle <:+: haystack := by
  rintro ⟨a,b,rfl⟩
  rw [findSubslice,List.findIdx?_eq_none_iff] at h
  have hmem : needle ∈ windows needle.length (a ++ needle ++ b) := by
    refine List.mem_of_getElem? (i := a.length) ?_
    rw [windows_getElem? (by simp),List.append_assoc,List.drop_left,List.take_left]
  simpa using h needle hmem

theorem findSubslice_eq_some {haystack needle : Bytes} {i : ℕ} (h : findSubslice haystack needle = some i) :
    needle <+: haystack.drop i ∧ ∀ j < i, ¬ needle <+: haystack.drop j := by
  obtain ⟨hi,hfound,hfirst⟩ := List.findIdx?_eq_some_iff_getElem.mp h
  have hwindow (j : ℕ) (hj : j < (windows needle.length haystack).length) :
      (windows needle.length haystack)[j] = (haystack.drop j).take needle.length := by
    simp [windows]
  constructor
  · rw [hwindow,beq_iff_eq] at hfound
    exact take_drop_eq_iff.mp hfound
  · intro j hj hoccurs
    have hnot := hfirst j hj
    rw [hwindow,beq_iff_eq] at hnot
    exact hnot (take_drop_eq_iff.mpr hoccurs)

/-- The needle at the place that was found. -/
theorem findSubslice_split {haystack needle : Bytes} {i : ℕ} (h : findSubslice haystack needle = some i) :
    haystack = haystack.take i ++ needle ++ haystack.drop (i+needle.length) := by
  obtain ⟨⟨rest,hrest⟩,-⟩ := findSubslice_eq_some h
  have hdrop : haystack.drop (i+needle.length) = rest := by
    rw [← List.drop_drop,← hrest,List.drop_left]
  rw [hdrop,List.append_assoc,hrest,List.take_append_drop]

theorem findSubslice_lt {body needle : Bytes} {index relative : ℕ} (hne : needle ≠ [])
    (h : findSubslice (body.drop index) needle = some relative) :
    body.length-(index+relative+needle.length) < body.length-index := by
  have hlength := (findSubslice_eq_some h).1.length_le
  have hpos := List.length_pos_iff.mpr hne
  rw [List.drop_drop,List.length_drop] at hlength
  omega

/-- The first loop of `redact_verbatim_bytes`. -/
def countLoop (body needle : Bytes) (hne : needle ≠ []) (index matched : ℕ) : ℕ :=
  match h : findSubslice (body.drop index) needle with
  | none => matched
  | some relative => countLoop body needle hne (index+relative+needle.length) (matched+1)
termination_by body.length-index
decreasing_by exact findSubslice_lt hne h

/-- The second loop. -/
def redactLoop (body needle : Bytes) (hne : needle ≠ []) (index : ℕ) (redacted : Bytes) : Bytes :=
  match _h : findSubslice (body.drop index) needle with
  | none => redacted ++ body.drop index
  | some relative =>
    redactLoop body needle hne (index+relative+needle.length)
      (redacted ++ (body.drop index).take relative ++ fetchRedaction)
termination_by body.length-index
decreasing_by exact findSubslice_lt hne _h

/-- The outcome, with the body it leaves behind. -/
def redactVerbatimBytes (body needle : Bytes) : Result Unit × Bytes :=
  if hne : needle = [] then (.ok (),body)
  else
    let matched := countLoop body needle hne 0 0
    if matched = 0 then (.ok (),body)
    else
      match redactedBodyLen body.length matched needle.length fetchRedaction.length with
      | .error e => (.error e,body)
      | .ok outputLen =>
        if outputLen > maxFetchBodyBytes then (bail "fetch response body exceeds size limit",body)
        else (.ok (),redactLoop body needle hne 0 [])

def redactFetchBody (body : Bytes) : List Bytes → Result Unit × Bytes
  | [] => (.ok (),body)
  | needle::needles =>
    match redactVerbatimBytes body needle with
    | (.error e,body) => (.error e,body)
    | (.ok (),body) => redactFetchBody body needles

def redactFetchHeaderText (value : String) (needles : List Bytes) : Result String :=
  if needles.all fun needle => needle == [] ||
      !((windows needle.length (utf8 value)).any fun window => window == needle) then .ok value
  else
    match redactFetchBody (utf8 value) needles with
    | (.error e,_) => .error e
    | (.ok (),bytes) => orError "fetch response header is not valid UTF-8 after redaction" (fromUtf8 bytes)

/-- Both loops walk over the same occurrences. -/
theorem loops_leftmost (body needle : Bytes) (hne : needle ≠ []) (index matched : ℕ) (redacted : Bytes) :
    ∃ stretches, Leftmost needle (body.drop index) stretches ∧
      countLoop body needle hne index matched = matched+(stretches.length-1) ∧
      redactLoop body needle hne index redacted = redacted ++ fetchRedaction.intercalate stretches := by
  fun_induction countLoop body needle hne index matched generalizing redacted with
  | case1 index matched h =>
    refine ⟨[body.drop index],.last (findSubslice_eq_none h),rfl,?_⟩
    rw [redactLoop,List.intercalate_singleton]
    split
    · rfl
    · next h' => cases h.symm.trans h'
  | case2 index matched relative h ih =>
    obtain ⟨stretches,hleftmost,hcount,hredact⟩ :=
      ih (redacted ++ (body.drop index).take relative ++ fetchRedaction)
    have hsplit := findSubslice_split h
    rw [List.drop_drop,← Nat.add_assoc] at hsplit
    have hpos := List.length_pos_iff.mpr hleftmost.ne_nil
    refine ⟨(body.drop index).take relative::stretches,?_,?_,?_⟩
    · have hnext : Leftmost needle ((body.drop index).take relative ++ needle ++
          body.drop (index+relative+needle.length)) ((body.drop index).take relative::stretches) := by
        refine .next (fun i hi => ?_) hleftmost
        rw [← hsplit]
        exact (findSubslice_eq_some h).2 i (Nat.lt_of_lt_of_le hi (List.length_take_le ..))
      rwa [← hsplit] at hnext
    · rw [hcount,List.length_cons]
      omega
    · rw [redactLoop]
      split
      · next h' => cases h.symm.trans h'
      · next relative' h' =>
        obtain rfl := Option.some.inj (h.symm.trans h')
        rw [hredact,List.intercalate_cons_of_ne_nil hleftmost.ne_nil]
        simp only [List.append_assoc]

/-- The predicted length, where it does not exceed `usize`. The subtraction does not underflow. -/
theorem redactedBodyLen_eq_ok {bodyLen matched needleLen redactionLen kept n : ℕ}
    (hbody : bodyLen = kept+matched*needleLen)
    (h : redactedBodyLen bodyLen matched needleLen redactionLen = .ok n) :
    n = kept+matched*redactionLen ∧ matched*(needleLen-redactionLen) ≤ bodyLen := by
  subst hbody
  unfold redactedBodyLen at h
  split at h
  · next hle =>
    obtain ⟨d,rfl⟩ := Nat.exists_eq_add_of_le hle
    obtain ⟨growth,hgrowth,h⟩ := bind_eq_ok.mp h
    rw [Nat.add_sub_cancel_left] at hgrowth
    simp only [orError_eq_ok,checkedMul,checkedAdd,Option.ite_none_right_eq_some] at hgrowth h
    obtain ⟨-,hgrowth⟩ := hgrowth
    obtain ⟨-,h⟩ := h
    obtain rfl := Option.some.inj hgrowth
    obtain rfl := Option.some.inj h
    refine ⟨by ring,?_⟩
    rw [Nat.sub_eq_zero_of_le hle,Nat.mul_zero]
    exact Nat.zero_le _
  · next hlt =>
    obtain ⟨d,rfl⟩ := Nat.exists_eq_add_of_lt (Nat.lt_of_not_le hlt)
    have hdiff : redactionLen+d+1-redactionLen = d+1 := by omega
    rw [hdiff] at h ⊢
    obtain rfl := Except.ok.inj h
    have hsum : kept+matched*(redactionLen+d+1) = kept+matched*redactionLen+matched*(d+1) := by ring
    rw [hsum,Nat.add_sub_cancel]
    exact ⟨rfl,Nat.le_add_left _ _⟩

/-- A pass with a needle: what a success makes of the body, and a failure leaves of it. -/
structure PassSpec (needle body : Bytes) (r : Result Unit × Bytes) : Prop where
  failed : ∀ e, r.1 = .error e → r.2 = body
  replaced : r.1 = .ok () → ∃ stretches, Leftmost needle body stretches ∧
    (∀ s ∈ stretches, ¬ needle <:+: s) ∧ r.2 = fetchRedaction.intercalate stretches ∧
    (stretches.length ≠ 1 → redactedBodyLen body.length (stretches.length-1) needle.length
      fetchRedaction.length = .ok r.2.length) ∧
    (stretches.length-1)*(needle.length-fetchRedaction.length) ≤ body.length

theorem redactVerbatimBytes_spec (body : Bytes) {needle : Bytes} (hne : needle ≠ []) :
    PassSpec needle body (redactVerbatimBytes body needle) := by
  obtain ⟨stretches,hleftmost,hcount,hredact⟩ := loops_leftmost body needle hne 0 0 []
  rw [List.drop_zero] at hleftmost
  rw [Nat.zero_add] at hcount
  rw [List.nil_append] at hredact
  have hpos := List.length_pos_iff.mpr hleftmost.ne_nil
  have hfree := hleftmost.not_occurs hne
  have hlength : body.length = (stretches.map List.length).sum+(stretches.length-1)*needle.length := by
    rw [← length_intercalate needle hleftmost.ne_nil,hleftmost.intercalate]
  rw [redactVerbatimBytes,dif_neg hne]
  simp only [hcount]
  split
  · next hzero =>
    have hone : stretches.length = 1 := by omega
    refine ⟨fun _ _ => rfl,fun _ => ⟨stretches,hleftmost,hfree,?_,fun h => absurd hone h,?_⟩⟩
    · obtain ⟨s,rfl⟩ := List.length_eq_one_iff.mp hone
      have hbody := hleftmost.intercalate
      rw [List.intercalate_singleton] at hbody ⊢
      exact hbody.symm
    · rw [hone,Nat.sub_self,Nat.zero_mul]
      exact Nat.zero_le _
  · split
    · exact ⟨fun _ _ => rfl,nofun⟩
    · next outputLen hlen =>
      obtain ⟨rfl,hunderflow⟩ := redactedBodyLen_eq_ok hlength hlen
      split
      · exact ⟨fun _ _ => rfl,nofun⟩
      · refine ⟨nofun,fun _ => ⟨stretches,hleftmost,hfree,hredact,fun _ => ?_,hunderflow⟩⟩
        rw [hredact,length_intercalate fetchRedaction hleftmost.ne_nil]
        exact hlen

theorem redactFetchBody_clean {needles : List Bytes} (hsep : ∀ needle ∈ needles, Separated needle fetchRedaction)
    {body out : Bytes} (h : redactFetchBody body needles = (.ok (),out)) :
    (∀ needle ∈ needles, ¬ needle <:+: out) ∧
      ∀ other, Separated other fetchRedaction → ¬ other <:+: body → ¬ other <:+: out := by
  induction needles generalizing body with
  | nil =>
    obtain ⟨-,rfl⟩ := Prod.mk.inj h
    exact ⟨nofun,fun _ _ h => h⟩
  | cons needle needles ih =>
    have hneedle := hsep needle List.mem_cons_self
    have hpass := redactVerbatimBytes_spec body hneedle.ne_nil
    rw [redactFetchBody] at h
    cases hr : redactVerbatimBytes body needle with
    | mk r after =>
      rw [hr] at h hpass
      cases r with
      | error e => cases h
      | ok u =>
        obtain ⟨stretches,hleftmost,hfree,rfl,-⟩ := hpass.replaced rfl
        obtain ⟨hclean,hkeeps⟩ := ih (fun n hn => hsep n (List.mem_cons_of_mem _ hn)) h
        refine ⟨fun n hn => ?_,fun other hother hbody =>
          hkeeps other hother (hother.not_occurs_replaced hbody hleftmost)⟩
        obtain rfl | hn := List.mem_cons.mp hn
        · apply hkeeps n hneedle
          intro hoccurs
          obtain ⟨s,hs,hin⟩ := hneedle.occurs_intercalate hoccurs
          exact hfree s hs hin
        · exact hclean n hn

theorem windows_any {text needle : Bytes}
    (h : ((windows needle.length text).any fun window => window == needle) = false) : ¬ needle <:+: text := by
  apply findSubslice_eq_none
  rw [findSubslice,List.findIdx?_eq_none_iff]
  simpa using h

theorem redactFetchHeaderText_clean {needles : List Bytes}
    (hsep : ∀ needle ∈ needles, Separated needle fetchRedaction) {value text : String}
    (h : redactFetchHeaderText value needles = .ok text) : ∀ needle ∈ needles, ¬ needle <:+: utf8 text := by
  unfold redactFetchHeaderText at h
  split at h
  · next hnone =>
    obtain rfl := Except.ok.inj h
    intro needle hneedle
    have hfree := List.all_eq_true.mp hnone needle hneedle
    rw [Bool.or_eq_true,beq_iff_eq,Bool.not_eq_true'] at hfree
    exact windows_any (hfree.resolve_left (hsep needle hneedle).ne_nil)
  · split at h
    · cases h
    · next bytes hbody =>
      rw [orError_eq_ok,fromUtf8_eq_some] at h
      subst h
      exact (redactFetchBody_clean hsep hbody).1

/-- Needles that cannot meet the marker do not occur in what is redacted, and each pass replaces
the leftmost occurrences. -/
theorem redaction_removes_needles :
    (∀ needles, (∀ needle ∈ needles, Separated needle fetchRedaction) →
      (∀ body out, redactFetchBody body needles = (.ok (),out) → ∀ needle ∈ needles, ¬ needle <:+: out) ∧
      ∀ value text, redactFetchHeaderText value needles = .ok text →
        ∀ needle ∈ needles, ¬ needle <:+: utf8 text) ∧
    ∀ body needle, needle ≠ [] → PassSpec needle body (redactVerbatimBytes body needle) :=
  ⟨fun _ hsep => ⟨fun _ _ h => (redactFetchBody_clean hsep h).1,fun _ _ h => redactFetchHeaderText_clean hsep h⟩,
    fun _ _ hne => redactVerbatimBytes_spec _ hne⟩

theorem redaction_removes_needles_twice : redactFetchBody (utf8 "a=s3cret&b=s3cret!") [utf8 "s3cret"] =
      (.ok (),utf8 "a=[avault-redacted]&b=[avault-redacted]!") ∧
    ∀ needle ∈ [utf8 "s3cret"], ¬ needle <:+: utf8 "a=[avault-redacted]&b=[avault-redacted]!" := by
  have hredacted : redactFetchBody (utf8 "a=s3cret&b=s3cret!") [utf8 "s3cret"] =
      (.ok (),utf8 "a=[avault-redacted]&b=[avault-redacted]!") := by decide +kernel
  have hsep : Separated (utf8 "s3cret") fetchRedaction :=
    ⟨by decide,by decide +kernel,by decide +kernel,by decide +kernel,by decide +kernel⟩
  have hseps : ∀ needle ∈ [utf8 "s3cret"], Separated needle fetchRedaction := by
    rintro needle hneedle
    rwa [List.mem_singleton.mp hneedle]
  exact ⟨hredacted,(redaction_removes_needles.1 [utf8 "s3cret"] hseps).1 _ _ hredacted⟩

end Avault.Fetch
