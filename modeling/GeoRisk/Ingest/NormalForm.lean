import GeoRisk.Ingest.Item

/-!
# Is the normalised text a normal form?

`normalise_text` composes first and drops the invisible characters afterwards, so a letter and an
accent that an invisible character kept apart meet too late.

* `Thinned s t`            `s` is `t` without some of its invisible characters;
* `NormalForm U sha t`     normalising `t` twice is normalising it once, and its invisible characters
                           do not count, neither for its normal form nor for its hash;
* `Seamless U t`           the pieces between the invisible characters of `t` meet without composing
                           or reordering anything;
* `normalForm_iff`         the first exactly where the second.
-/

namespace GeoRisk
open Kit

inductive Thinned : Text → Text → Prop
  | nil : Thinned [] []
  | keep (c : Char) {s t : Text} : Thinned s t → Thinned (c :: s) (c :: t)
  | drop {c : Char} {s t : Text} : isInvisible c = true → Thinned s t → Thinned s (c :: t)

structure NormalForm (U : Unicode) (sha : Text → Text) (t : Text) : Prop where
  idempotent : normaliseText U (normaliseText U t) = normaliseText U t
  blind : ∀ s, Thinned s t → normaliseText U s = normaliseText U t
  hash : ∀ s, Thinned s t → contentHash U sha s = contentHash U sha t

/-- the pieces between the invisible characters, each in NFKC and put together, are in NFKC -/
def Seamless (U : Unicode) (t : Text) : Prop := U.IsNfkc ((pieces isInvisible t).flatMap U.nfkc)

instance (U : Unicode) (t : Text) : Decidable (Seamless U t) :=
  inferInstanceAs (Decidable (U.nfkc _ = _))

section
variable {U : Unicode}

/-- **A text with inert separators is in NFKC exactly when the pieces between them are.** -/
theorem isNfkc_iff_pieces {p : Char → Bool} {t : Text} (hp : ∀ c ∈ t, p c = true → Inert c) :
    U.IsNfkc t ↔ ∀ w ∈ pieces p t, U.IsNfkc w := by
  have hfree : ∀ u : Text, (∀ c ∈ u, p c = false) → (∀ w ∈ pieces p u, U.IsNfkc w) →
      U.IsNfkc u := by
    intro u hu h
    cases u with
    | nil => exact Unicode.nfkc_nil
    | cons c u =>
      rw [pieces_free hu (List.cons_ne_nil c u)] at h
      exact h _ (List.mem_singleton_self _)
  constructor
  · intro h w hw
    exact h.of_isInfix (mem_pieces_isInfix hw)
  · induction t using sep_induction (p := p) with
    | free u hu => exact hfree u hu
    | sep u c v hu hc ih =>
      intro h
      rw [pieces_append_cons u hc] at h
      have huu : U.nfkc u = u := hfree u hu fun w hw => h w (List.mem_append_left _ hw)
      have hvv : U.nfkc v = v := by
        refine ih (fun d hd => hp d ?_) fun w hw => h w (List.mem_append_right _ hw)
        exact List.mem_append_right _ (List.mem_cons_of_mem _ hd)
      have hinert : Inert c := hp c (List.mem_append_right _ (List.mem_cons_self ..)) hc
      show U.nfkc (u ++ c :: v) = u ++ c :: v
      rw [U.nfkc_inert u c v hinert, huu, hvv]

/-- dropping the invisible characters can only compose more -/
theorem isNfkc_of_dropInvisible {t : Text} (h : U.IsNfkc (dropInvisible t)) : U.IsNfkc t := by
  refine (isNfkc_iff_pieces (p := isInvisible) fun c _ hc => inert_of_invisible hc).mpr ?_
  intro w hw
  refine h.of_isInfix ?_
  rw [dropInvisible, ← flatten_pieces]
  exact List.infix_of_mem_flatten hw

/-- **The normal form is in NFKC exactly when the visible NFKC form is.** -/
theorem isNfkc_normaliseText (t : Text) :
    U.IsNfkc (normaliseText U t) ↔ U.IsNfkc (dropInvisible (U.nfkc t)) := by
  have hvisible : ∀ c ∈ dropInvisible (U.nfkc t), U.IsNfkc [c] := fun c hc =>
    (Unicode.isNfkc_nfkc t).char (List.mem_of_mem_filter hc)
  rw [isNfkc_iff_pieces (p := isSpace) fun c hc hs =>
      Unicode.inert_of_isNfkc (normaliseText_char U hc) hs,
    isNfkc_iff_pieces (p := isSpace) fun c hc hs => Unicode.inert_of_isNfkc (hvisible c hc) hs,
    pieces_normaliseText]

/-- the visible NFKC form is the NFKC forms of the pieces between the invisible characters -/
theorem dropInvisible_nfkc (hU : U.Conforming) (t : Text) :
    dropInvisible (U.nfkc t) = (pieces isInvisible t).flatMap U.nfkc := by
  have hfree : ∀ u : Text, (∀ c ∈ u, isInvisible c = false) →
      dropInvisible (U.nfkc u) = (pieces isInvisible u).flatMap U.nfkc := by
    intro u hu
    rw [dropInvisible_eq_self (hU.nfkc_visible hu)]
    cases u with
    | nil => exact Unicode.nfkc_nil
    | cons c u => rw [pieces_free hu (List.cons_ne_nil c u), List.flatMap_singleton]
  induction t using sep_induction (p := isInvisible) with
  | free u hu => exact hfree u hu
  | sep u c v hu hc ih =>
    rw [U.nfkc_inert u c v (inert_of_invisible hc), pieces_append_cons u hc, List.flatMap_append,
      ← hfree u hu, ← ih]
    unfold dropInvisible
    rw [List.filter_append, List.filter_cons_of_neg (by rw [hc]; exact Bool.false_ne_true)]

/-- **An invisible character at a joint that composes nothing does not count.** -/
theorem dropInvisible_nfkc_joint (hU : U.Conforming) {x y : Text} {c : Char}
    (hc : isInvisible c = true) (h : U.IsNfkc (dropInvisible (U.nfkc (x ++ c :: y)))) :
    dropInvisible (U.nfkc (x ++ y)) = dropInvisible (U.nfkc (x ++ c :: y)) := by
  have hjoint : dropInvisible (U.nfkc (x ++ c :: y)) = dropInvisible (U.nfkc x ++ U.nfkc y) := by
    rw [U.nfkc_inert x c y (inert_of_invisible hc)]
    unfold dropInvisible
    rw [List.filter_append, List.filter_append,
      List.filter_cons_of_neg (by rw [hc]; exact Bool.false_ne_true)]
  rw [hjoint] at h ⊢
  rw [← hU.nfkc_append, isNfkc_of_dropInvisible h]

/-- `x` is what stands before the characters still to be looked at -/
theorem Thinned.dropInvisible_nfkc (hU : U.Conforming) {s t : Text} (hst : Thinned s t) (x : Text)
    (h : U.IsNfkc (dropInvisible (U.nfkc (x ++ t)))) :
    dropInvisible (U.nfkc (x ++ s)) = dropInvisible (U.nfkc (x ++ t)) := by
  induction hst generalizing x with
  | nil => rfl
  | @keep c s t _ ih =>
    have hx : ∀ r : Text, x ++ c :: r = (x ++ [c]) ++ r := fun r => by
      rw [List.append_assoc, List.singleton_append]
    rw [hx s, hx t]
    rw [hx t] at h
    exact ih (x ++ [c]) h
  | @drop c s t hc _ ih =>
    have hjoint := dropInvisible_nfkc_joint hU hc h
    rw [← hjoint] at h ⊢
    exact ih x h

/-- **Normalising a text is idempotent and blind to its invisible characters exactly when the pieces
between them meet without composing.** -/
theorem normalForm_iff (hU : U.Conforming) (sha : Text → Text) (t : Text) :
    NormalForm U sha t ↔ Seamless U t := by
  have hseamless : Seamless U t ↔ U.IsNfkc (normaliseText U t) := by
    rw [isNfkc_normaliseText, dropInvisible_nfkc hU]
    rfl
  rw [hseamless]
  constructor
  · intro h
    refine isNfkc_of_prefix (normaliseText_clean U t) (fun c hc => normaliseText_char U hc) ?_
    rw [h.idempotent]
  · intro h
    have hblind : ∀ s, Thinned s t → normaliseText U s = normaliseText U t := by
      intro s hs
      have hsame := hs.dropInvisible_nfkc hU [] ((isNfkc_normaliseText t).mp h)
      rw [List.nil_append, List.nil_append] at hsame
      rw [normaliseText_eq, normaliseText_eq, hsame]
    refine ⟨normaliseText_eq_self U (normaliseText_clean U t) h, hblind, fun s hs => ?_⟩
    rw [contentHash, contentHash, hblind s hs]

end

namespace Sample

/-- an `e` and an acute accent with a zero-width space between them -/
def seam : Text := ['e', Char.ofNat 0x200B, Latin.acute]

/-- a zero-width space between two words -/
def polluted : Text := txt "Port" ++ Char.ofNat 0x200B :: txt " closed"

end Sample

/-- the normal form of the seam composes when it is normalised again -/
theorem seam_not_normalForm :
    ¬ ∀ (U : Unicode) (sha : Text → Text) (t : Text), U.Conforming → NormalForm U sha t := by
  intro h
  have hid := (h Unicode.latin id Sample.seam Unicode.latin_conforming).idempotent
  exact absurd hid (by decide)

theorem normalForm_iff_polluted :
    NormalForm Unicode.latin id Sample.polluted ∧ ¬ NormalForm Unicode.latin id Sample.seam :=
  ⟨(normalForm_iff Unicode.latin_conforming id _).mpr (by decide),
    fun h => absurd ((normalForm_iff Unicode.latin_conforming id _).mp h) (by decide)⟩

end GeoRisk
