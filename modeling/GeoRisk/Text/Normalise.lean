import GeoRisk.Kit.Text
import GeoRisk.Text.Unicode

/-!
# Text normalisation

`normalise_text` of the ingestion package: NFKC, removal of the invisible characters, line ends,
white-space folding, and stripping of the ends.

* `strip`                       `str.strip`;
* `normaliseText`               `normalise_text`;
* `Clean s`                     what a normalised text looks like: no invisible character, white
                                space only as single inner spaces;
* `normaliseText_clean`         every output is `Clean`;
* `normaliseText_eq_self`       a `Clean` text in NFKC is left as it is;
* `isNfkc_of_prefix`            a normalised text that begins with its own normal form is in NFKC;
* `normaliseText_eq`            a normalised text is the words of the visible NFKC form, put together.
-/

namespace GeoRisk
open Kit

/-- `str.strip` -/
def strip (s : Text) : Text := trim isSpace s

def dropInvisible (s : Text) : Text := s.filter fun c => !isInvisible c

/-- `·.replace("\r\n", "\n")` -/
def crlfToLf : Text → Text
  | [] => []
  | [c] => [c]
  | c :: d :: t => if c = '\r' ∧ d = '\n' then crlfToLf (d :: t) else c :: crlfToLf (d :: t)

/-- `·.replace("\r\n", "\n").replace("\r", "\n")` -/
def unifyLineEnds (s : Text) : Text := (crlfToLf s).map fun c => if c = '\r' then '\n' else c

def normaliseText (U : Unicode) (s : Text) : Text :=
  strip (foldRuns isSpace ' ' (unifyLineEnds (dropInvisible (U.nfkc s))))

/-! ## line ends -/

theorem crlfToLf_subset {c : Char} {s : Text} (h : c ∈ crlfToLf s) : c ∈ s := by
  induction s using crlfToLf.induct with
  | case1 => exact h
  | case2 d => exact h
  | case3 a b t hab ih =>
    rw [crlfToLf, if_pos hab] at h
    exact List.mem_cons_of_mem _ (ih h)
  | case4 a b t hab ih =>
    rw [crlfToLf, if_neg hab] at h
    rcases List.mem_cons.mp h with rfl | h
    · exact List.mem_cons_self ..
    · exact List.mem_cons_of_mem _ (ih h)

theorem crlfToLf_eq_self {s : Text} (h : '\r' ∉ s) : crlfToLf s = s := by
  induction s using crlfToLf.induct with
  | case1 => rfl
  | case2 d => rfl
  | case3 a b t hab ih => exact absurd (by simp [hab.1]) h
  | case4 a b t hab ih =>
    rw [crlfToLf, if_neg hab, ih fun hm => h (List.mem_cons_of_mem _ hm)]

theorem unifyLineEnds_eq_self {s : Text} (h : '\r' ∉ s) : unifyLineEnds s = s := by
  unfold unifyLineEnds
  rw [crlfToLf_eq_self h]
  have hmap : s.map (fun c => if c = '\r' then '\n' else c) = s.map id := by
    apply List.map_congr_left
    intro c hc
    refine if_neg fun e => h ?_
    rw [← e]
    exact hc
  rw [hmap, List.map_id]

theorem unifyLineEnds_subset {c : Char} {s : Text} (h : c ∈ unifyLineEnds s)
    (hs : isSpace c = false) : c ∈ s := by
  obtain ⟨d, hd, he⟩ := List.mem_map.mp h
  have hd' := crlfToLf_subset hd
  split at he
  · rw [← he] at hs
    exact absurd hs (by decide)
  · exact he ▸ hd'

theorem crlfToLf_cons {c : Char} (h : c ≠ '\r') (s : Text) : crlfToLf (c :: s) = c :: crlfToLf s := by
  cases s with
  | nil => rfl
  | cons d s => rw [crlfToLf, if_neg fun hc => h hc.1]

theorem crlfToLf_append {u : Text} (hu : ∀ c ∈ u, isSpace c = false) (s : Text) :
    crlfToLf (u ++ s) = u ++ crlfToLf s := by
  induction u with
  | nil => rfl
  | cons c u ih =>
    have hc : c ≠ '\r' := by
      rintro rfl
      exact absurd (hu _ (List.mem_cons_self ..)) (by decide)
    rw [List.cons_append, crlfToLf_cons hc, ih fun d hd => hu d (List.mem_cons_of_mem _ hd),
      List.cons_append]

/-- line ends separate the same words, however they are written -/
theorem pieces_unifyLineEnds (s : Text) : pieces isSpace (unifyLineEnds s) = pieces isSpace s := by
  have hcrlf : pieces isSpace (crlfToLf s) = pieces isSpace s := by
    induction s using sep_induction (p := isSpace) with
    | free u hu =>
      rw [← List.append_nil u, crlfToLf_append hu]
      rfl
    | sep u c v hu hc ih =>
      rw [crlfToLf_append hu, pieces_append_cons u hc, ← ih]
      cases v with
      | nil => exact pieces_append_cons u hc []
      | cons d v =>
        rw [crlfToLf]
        split
        · next h =>
          -- the carriage return goes, the line feed behind it still separates
          rw [h.2, crlfToLf_cons (by decide), pieces_append_cons u (by decide),
            pieces_cons (by decide)]
        · rw [pieces_append_cons u hc]
  unfold unifyLineEnds
  rw [pieces_map, hcrlf]
  · intro c hc
    refine if_neg ?_
    rintro rfl
    exact absurd hc (by decide)
  · intro c hc
    split
    · rfl
    · exact hc

/-! ## what a normalised text looks like -/

/-- no invisible character, white space only as single inner spaces -/
structure Clean (s : Text) : Prop where
  visible : ∀ c ∈ s, isInvisible c = false
  single : Single isSpace ' ' s
  trimmed : strip s = s

theorem Clean.not_cr {s : Text} (h : Clean s) : '\r' ∉ s := fun hm =>
  absurd (h.single.1 _ hm (by decide)) (by decide)

theorem Clean.of_isInfix {s t : Text} (h : Clean s) (ht : t <:+: s) : Clean (strip t) := by
  have hst : strip t <:+: s := (trim_isInfix isSpace t).trans ht
  exact ⟨fun c hc => h.visible c (hst.subset hc), h.single.of_isInfix hst, trim_trim isSpace t⟩

theorem isInvisible_space : isInvisible ' ' = false := by decide

theorem dropInvisible_eq_self {s : Text} (h : ∀ c ∈ s, isInvisible c = false) :
    dropInvisible s = s := by
  unfold dropInvisible
  rw [List.filter_eq_self]
  intro c hc
  simp [h c hc]

section
variable (U : Unicode)

theorem normaliseText_clean (s : Text) : Clean (normaliseText U s) := by
  have hsub := trim_isInfix isSpace
    (foldRuns isSpace ' ' (unifyLineEnds (dropInvisible (U.nfkc s))))
  refine ⟨fun c hc => ?_, (foldRuns_single _).of_isInfix hsub, trim_trim isSpace _⟩
  rcases mem_foldRunsFrom isSpace ' ' (hsub.subset hc) with rfl | ⟨h, hs⟩
  · exact isInvisible_space
  · have := unifyLineEnds_subset h hs
    simpa [dropInvisible] using (List.mem_filter.mp this).2

theorem normaliseText_char {s : Text} {c : Char} (h : c ∈ normaliseText U s) : U.IsNfkc [c] := by
  have hsub := trim_isInfix isSpace
    (foldRuns isSpace ' ' (unifyLineEnds (dropInvisible (U.nfkc s))))
  rcases mem_foldRunsFrom isSpace ' ' (hsub.subset h) with rfl | ⟨h, hs⟩
  · exact Unicode.isNfkc_inert inert_space
  · have := unifyLineEnds_subset h hs
    exact (Unicode.isNfkc_nfkc s).char (List.mem_of_mem_filter this)

theorem normaliseText_eq (s : Text) :
    normaliseText U s = [' '].intercalate (pieces isSpace (dropInvisible (U.nfkc s))) := by
  unfold normaliseText strip
  rw [trim_foldRuns (by decide), pieces_unifyLineEnds]

theorem pieces_normaliseText (s : Text) :
    pieces isSpace (normaliseText U s) = pieces isSpace (dropInvisible (U.nfkc s)) := by
  unfold normaliseText strip
  rw [pieces_trim, pieces_foldRuns (by decide), pieces_unifyLineEnds]

/-- white space becomes white space, wherever it stands -/
theorem nfkc_space_append (hU : U.Conforming) {c : Char} (hc : isSpace c = true) :
    ∃ d, isSpace d = true ∧ ∀ x y, U.nfkc (x ++ c :: y) = U.nfkc x ++ d :: U.nfkc y := by
  cases hcompat : isCompatSpace c with
  | false => exact ⟨c, hc, fun x y => U.nfkc_inert x c y (Or.inr ⟨hc, hcompat⟩)⟩
  | true =>
    refine ⟨' ', by decide, fun x y => ?_⟩
    have hspace : U.nfkc (x ++ [c]) = U.nfkc (x ++ [' ']) := by
      rw [← hU.nfkc_append_right, U.nfkc_compatSpace c hcompat]
    rw [List.append_cons x c y, ← hU.nfkc_append_left, hspace, hU.nfkc_append_left,
      ← List.append_cons, U.nfkc_inert x ' ' y inert_space]

/-- **White space separates the words of the normal form before it is normalised.** -/
theorem pieces_nfkc_append (hU : U.Conforming) (x y : Text) {c : Char} (hc : isSpace c = true) :
    pieces isSpace (dropInvisible (U.nfkc (x ++ c :: y))) =
      pieces isSpace (dropInvisible (U.nfkc x)) ++ pieces isSpace (dropInvisible (U.nfkc y)) := by
  obtain ⟨d, hd, hsplit⟩ := nfkc_space_append U hU hc
  have hvisible : isInvisible d = false := by
    rw [Bool.eq_false_iff]
    intro hi
    rw [not_space_of_invisible hi] at hd
    cases hd
  rw [hsplit]
  unfold dropInvisible
  rw [List.filter_append, List.filter_cons_of_pos (by rw [hvisible]; rfl), pieces_append_cons _ hd]

theorem normaliseText_strip (hU : U.Conforming) (s : Text) :
    normaliseText U (strip s) = normaliseText U s := by
  have hnil : pieces isSpace (dropInvisible (U.nfkc [])) = [] := by
    rw [Unicode.nfkc_nil]
    rfl
  rw [normaliseText_eq, normaliseText_eq, strip]
  refine congrArg _ (apply_trim isSpace
    (g := fun t => pieces isSpace (dropInvisible (U.nfkc t))) ?_ ?_ s)
  · intro c t hc
    have h := pieces_nfkc_append U hU [] t hc
    rw [hnil, List.nil_append, List.nil_append] at h
    exact h
  · intro t c hc
    have h := pieces_nfkc_append U hU t [] hc
    rw [hnil, List.append_nil] at h
    exact h

/-- **A clean text in NFKC is its own normal form.** -/
theorem normaliseText_eq_self {s : Text} (h : Clean s) (hn : U.IsNfkc s) :
    normaliseText U s = s := by
  unfold normaliseText
  rw [show U.nfkc s = s from hn, dropInvisible_eq_self h.visible, unifyLineEnds_eq_self h.not_cr,
    foldRuns_eq_self h.single, h.trimmed]

/-- invisible characters at the end do not count -/
theorem normaliseText_append_invisible (s : Text) {z : Text}
    (hz : ∀ c ∈ z, isInvisible c = true) : normaliseText U (s ++ z) = normaliseText U s := by
  have h0 : dropInvisible z = [] := by
    unfold dropInvisible
    rw [List.filter_eq_nil_iff]
    intro c hc
    simp [hz c hc]
  unfold normaliseText
  rw [Unicode.nfkc_append_inert s fun c hc => inert_of_invisible (hz c hc)]
  show strip (foldRuns isSpace ' ' (unifyLineEnds (dropInvisible (U.nfkc s ++ z)))) = _
  rw [show dropInvisible (U.nfkc s ++ z) = dropInvisible (U.nfkc s) ++ dropInvisible z from
    List.filter_append .., h0, List.append_nil]

/-! ## normalising a normalised text -/

def words (s : Text) : Text := s.filter fun c => !isSpace c

theorem words_cons_space {c : Char} (s : Text) (h : isSpace c = true) : words (c :: s) = words s :=
  List.filter_cons_of_neg (by simp [h])

theorem words_cons {c : Char} (s : Text) (h : isSpace c = false) :
    words (c :: s) = c :: words s := List.filter_cons_of_pos (by simp [h])

theorem words_append (s t : Text) : words (s ++ t) = words s ++ words t := List.filter_append ..

variable {U} {t : Text} (ht : Clean t) (hc : ∀ c ∈ t, U.IsNfkc [c])
include ht hc

theorem nfkc_visible : ∀ c ∈ U.nfkc t, isInvisible c = false := by
  intro c hm
  rw [Bool.eq_false_iff]
  intro hi
  have := Unicode.mem_of_mem_nfkc hc (inert_of_invisible hi) hm
  rw [ht.visible c this] at hi
  cases hi

theorem nfkc_space : ∀ c ∈ U.nfkc t, isSpace c = true → c = ' ' := by
  intro c hm hs
  have hn := (Unicode.isNfkc_nfkc t).char hm
  have := Unicode.mem_of_mem_nfkc hc (Unicode.inert_of_isNfkc hn hs) hm
  exact ht.single.1 c this hs

/-- the second normalisation only removes spaces from the NFKC form -/
theorem normaliseText_sublist :
    List.Sublist (normaliseText U t) (U.nfkc t) ∧ words (normaliseText U t) = words (U.nfkc t) := by
  have hv := nfkc_visible ht hc
  have hs := nfkc_space ht hc
  have hcr : '\r' ∉ U.nfkc t := fun h => absurd (hs _ h (by decide)) (by decide)
  unfold normaliseText
  rw [dropInvisible_eq_self hv, unifyLineEnds_eq_self hcr]
  refine ⟨(trim_isInfix isSpace _).sublist.trans (foldRuns_sublist hs), ?_⟩
  unfold words strip
  rw [filter_trim, filter_foldRuns (by decide)]

omit ht in
theorem count_flatMap_dk : (t.flatMap U.dk).count ' ' = t.count ' ' := by
  induction t with
  | nil => rfl
  | cons c t ih =>
    rw [List.flatMap_cons, List.count_append, ih fun d hd => hc d (List.mem_cons_of_mem _ hd),
      List.count_cons]
    by_cases h : c = ' '
    · rw [h, U.dk_inert ' ' inert_space]
      simp
      omega
    · have h0 : (U.dk c).count ' ' = 0 := by
        rw [List.count_eq_zero]
        intro hm
        exact h (U.eq_of_mem_dk ' ' c (hc c (List.mem_cons_self ..)) inert_space hm).symm
      simp [h, h0]

end

/-- number of characters of the compatibility decomposition -/
def weight (U : Unicode) (s : Text) : Nat := (s.flatMap U.dk).length

section
variable {U : Unicode}

theorem weight_append (s t : Text) : weight U (s ++ t) = weight U s + weight U t := by
  simp [weight]

theorem weight_eq_zero {s : Text} (h : weight U s = 0) : s = [] := by
  cases s with
  | nil => rfl
  | cons c s =>
    have h0 : U.dk c = [] := by
      rw [weight, List.flatMap_cons, List.length_append] at h
      exact List.length_eq_zero_iff.mp (by omega)
    exact absurd h0 (U.dk_ne_nil c)

theorem weight_nfkc (s : Text) : weight U (U.nfkc s) = weight U s := (U.dk_nfkc s).length_eq

/-- a text whose white space is spaces consists of its words and its spaces -/
theorem weight_words {s : Text} (h : ∀ c ∈ s, isSpace c = true → c = ' ') :
    weight U s = weight U (words s) + s.count ' ' ∧
      s.length = (words s).length + s.count ' ' := by
  induction s with
  | nil => exact ⟨rfl, rfl⟩
  | cons c s ih =>
    obtain ⟨h1, h2⟩ := ih fun d hd => h d (List.mem_cons_of_mem _ hd)
    have hw : weight U (c :: s) = weight U [c] + weight U s := weight_append [c] s
    rw [hw, h1, List.length_cons, h2]
    cases hs : isSpace c with
    | true =>
      have h1' : weight U [' '] = 1 := by simp [weight, U.dk_inert ' ' inert_space]
      rw [words_cons_space s hs, h c (List.mem_cons_self ..) hs, List.count_cons_self, h1']
      omega
    | false =>
      have hne : c ≠ ' ' := by
        rintro rfl
        exact absurd hs (by decide)
      have hwc : weight U (c :: words s) = weight U [c] + weight U (words s) :=
        weight_append [c] (words s)
      rw [words_cons s hs, List.count_cons_of_ne hne, hwc, List.length_cons]
      omega

/-- **A clean text that begins with its own normal form is in NFKC.** -/
theorem isNfkc_of_prefix {t : Text} (ht : Clean t) (hc : ∀ c ∈ t, U.IsNfkc [c])
    (h : normaliseText U t <+: t) : U.IsNfkc t := by
  obtain ⟨s, hs⟩ := h
  obtain ⟨hsub, hwords⟩ := normaliseText_sublist ht hc
  have hcA : ∀ c ∈ U.nfkc t, U.IsNfkc [c] := fun c h => (Unicode.isNfkc_nfkc t).char h
  have hcount : (U.nfkc t).count ' ' = t.count ' ' := by
    rw [← count_flatMap_dk hcA, ← count_flatMap_dk hc]
    exact (U.dk_nfkc t).count_eq ' '
  obtain ⟨hA, hlA⟩ := weight_words (U := U) (nfkc_space ht hc)
  obtain ⟨hT, hlT⟩ := weight_words (U := U) ht.single.1
  have hw : weight U (words (U.nfkc t)) = weight U (words t) := by
    rw [weight_nfkc] at hA
    omega
  have hsplit : words t = words (U.nfkc t) ++ words s := by
    rw [← hwords, ← words_append, hs]
  have hs0 : words s = [] := by
    apply weight_eq_zero (U := U)
    rw [hsplit, weight_append] at hw
    omega
  have hnil : s = [] := by
    by_contra hne
    have hlast : s.getLast hne ∈ t.getLast? := by
      rw [← hs, List.getLast?_append_of_ne_nil _ hne, List.getLast?_eq_some_getLast hne]
      rfl
    rw [← ht.trimmed] at hlast
    have h1 := trim_getLast isSpace hlast
    have h2 : s.getLast hne ∈ words s :=
      List.mem_filter.mpr ⟨List.getLast_mem hne, by simp [h1]⟩
    rw [hs0] at h2
    cases h2
  rw [hnil, List.append_nil] at hs
  rw [hnil] at hsplit
  rw [hs] at hsub
  have hlen : t.length = (U.nfkc t).length := by
    rw [hlA, hlT, hsplit, hcount]
    simp [words]
  exact (hsub.eq_of_length hlen).symm

end

end GeoRisk
