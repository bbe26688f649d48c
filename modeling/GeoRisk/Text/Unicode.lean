import Mathlib.Data.List.Chain
import Mathlib.Data.List.Flatten
import Mathlib.Data.List.Perm.Basic
import Mathlib.Tactic.Linarith

/-!
# Text, white space, invisible characters, and the Unicode tables

A Python `str` is its list of code points, `Text`.

* `isSpace`       the characters of `str.isspace`, which are also those of `\s` and of
                  `str.strip`;
* `isInvisible`   the characters of `_INVISIBLE_RANGES` of the normaliser;
* `Inert c`       `c` is an invisible character, or a white space without a compatibility
                  decomposition: none of them takes part in a decomposition or a composition.

`Unicode` collects what the code asks of the interpreter's character tables: `unicodedata`'s NFKC,
case folding and the letter-or-digit test.  The fields that are propositions are the documented
facts about NFKC (UAX #15) that the proofs use: it is idempotent and closed under substrings, an
inert character is a normalisation boundary, and it preserves the compatibility decomposition
`dk` up to the order of combining marks.

`Unicode.Conforming` adds what the results about the joints of a text need: equivalent texts have one
normal form, and no character decomposes into an invisible one.

`Unicode.latin` is the part of the tables that covers ASCII, `é` and the compatibility spaces.
-/

namespace GeoRisk

/-- a Python `str` -/
abbrev Text := List Char

instance : LawfulBEq Text := inferInstanceAs (LawfulBEq (List Char))

def txt (s : String) : Text := s.toList

def inRanges (rs : List (Nat × Nat)) (c : Char) : Bool :=
  rs.any fun r => decide (r.1 ≤ c.toNat) && decide (c.toNat ≤ r.2)

/-- `str.isspace`, `\s`, and what `str.strip` removes -/
def isSpace (c : Char) : Bool :=
  inRanges [(0x09, 0x0D), (0x1C, 0x20), (0x85, 0x85), (0xA0, 0xA0), (0x1680, 0x1680),
    (0x2000, 0x200A), (0x2028, 0x2029), (0x202F, 0x202F), (0x205F, 0x205F), (0x3000, 0x3000)] c

/-- the white space with a compatibility decomposition -/
def isCompatSpace (c : Char) : Bool :=
  inRanges [(0xA0, 0xA0), (0x2000, 0x200A), (0x202F, 0x202F), (0x205F, 0x205F),
    (0x3000, 0x3000)] c

def invisibleRanges : List (Nat × Nat) :=
  [(0x200B, 0x200F), (0x202A, 0x202E), (0x2060, 0x2064), (0xFEFF, 0xFEFF)]

/-- `_INVISIBLE` -/
def isInvisible (c : Char) : Bool := inRanges invisibleRanges c

/-- a character that takes part in no decomposition and no composition -/
def Inert (c : Char) : Prop := isInvisible c = true ∨ (isSpace c = true ∧ isCompatSpace c = false)

theorem inert_space : Inert ' ' := Or.inr (by decide)

theorem inert_of_invisible {c : Char} (h : isInvisible c = true) : Inert c := Or.inl h

theorem not_space_of_invisible {c : Char} (h : isInvisible c = true) : isSpace c = false := by
  simp only [isInvisible, invisibleRanges, inRanges, List.any_cons, List.any_nil, Bool.or_false,
    Bool.or_eq_true, Bool.and_eq_true, decide_eq_true_eq] at h
  simp only [isSpace, inRanges, List.any_cons, List.any_nil, Bool.or_false, Bool.or_eq_false_iff,
    Bool.and_eq_false_iff, decide_eq_false_iff_not]
  omega

theorem space_of_compat {c : Char} (h : isCompatSpace c = true) : isSpace c = true := by
  simp only [isCompatSpace, inRanges, List.any_cons, List.any_nil, Bool.or_false,
    Bool.or_eq_true, Bool.and_eq_true, decide_eq_true_eq] at h
  simp only [isSpace, inRanges, List.any_cons, List.any_nil, Bool.or_false, Bool.or_eq_true,
    Bool.and_eq_true, decide_eq_true_eq]
  omega

theorem not_compat_of_inert {c : Char} (h : Inert c) : isCompatSpace c = false := by
  rcases h with h | h
  · rw [Bool.eq_false_iff]
    intro hc
    have hs := not_space_of_invisible h
    rw [space_of_compat hc] at hs
    cases hs
  · exact h.2

/-- The character tables of the interpreter. -/
structure Unicode where
  /-- `unicodedata.normalize("NFKC", ·)` -/
  nfkc : Text → Text
  /-- full compatibility decomposition of one character -/
  dk : Char → Text
  /-- full case folding of one character -/
  casefoldChar : Char → Text
  /-- a letter or a digit -/
  isAlnum : Char → Bool
  nfkc_nfkc : ∀ s, nfkc (nfkc s) = nfkc s
  /-- a substring of a normalised text is normalised -/
  nfkc_infix : ∀ s t, nfkc s = s → t <:+: s → nfkc t = t
  /-- an inert character is a normalisation boundary -/
  nfkc_inert : ∀ x c y, Inert c → nfkc (x ++ c :: y) = nfkc x ++ c :: nfkc y
  dk_ne_nil : ∀ c, dk c ≠ []
  dk_inert : ∀ c, Inert c → dk c = [c]
  /-- no normalised character but itself decomposes into an inert one -/
  eq_of_mem_dk : ∀ c d, nfkc [d] = [d] → Inert c → c ∈ dk d → c = d
  /-- normalising keeps the compatibility decomposition, up to the order of marks -/
  dk_nfkc : ∀ s, ((nfkc s).flatMap dk).Perm (s.flatMap dk)
  nfkc_compatSpace : ∀ c, isCompatSpace c = true → nfkc [c] = [' ']

namespace Unicode
variable (U : Unicode)

def IsNfkc (s : Text) : Prop := U.nfkc s = s

/-- `str.casefold` -/
def casefold (s : Text) : Text := s.flatMap U.casefoldChar

variable {U}

theorem isNfkc_nfkc (s : Text) : U.IsNfkc (U.nfkc s) := U.nfkc_nfkc s

theorem IsNfkc.of_isInfix {s t : Text} (h : U.IsNfkc s) (ht : t <:+: s) : U.IsNfkc t :=
  U.nfkc_infix s t h ht

theorem nfkc_nil : U.nfkc [] = [] :=
  (isNfkc_nfkc (U := U) []).of_isInfix (List.nil_infix)

theorem isNfkc_inert {c : Char} (h : Inert c) : U.IsNfkc [c] := by
  have := U.nfkc_inert [] c [] h
  rw [nfkc_nil, List.nil_append] at this
  exact this

theorem IsNfkc.char {s : Text} (h : U.IsNfkc s) {c : Char} (hc : c ∈ s) : U.IsNfkc [c] := by
  obtain ⟨u, v, rfl⟩ := List.append_of_mem hc
  exact h.of_isInfix ⟨u, v, by simp⟩

/-- a normalised space is inert -/
theorem inert_of_isNfkc {c : Char} (h : U.IsNfkc [c]) (hs : isSpace c = true) : Inert c := by
  refine Or.inr ⟨hs, ?_⟩
  rw [Bool.eq_false_iff]
  intro hc
  have h1 := U.nfkc_compatSpace c hc
  rw [h] at h1
  cases h1
  exact absurd hc (by decide)

/-- appending inert characters does not change the normal form of what stands before them -/
theorem nfkc_append_inert (s : Text) {z : Text} (hz : ∀ c ∈ z, Inert c) :
    U.nfkc (s ++ z) = U.nfkc s ++ z := by
  induction z generalizing s with
  | nil => simp
  | cons c z ih =>
    have hz' : ∀ d ∈ z, Inert d := fun d hd => hz d (List.mem_cons_of_mem _ hd)
    have h0 := ih [] hz'
    rw [nfkc_nil, List.nil_append] at h0
    rw [U.nfkc_inert s c z (hz c (List.mem_cons_self ..)), h0]

/-- the inert characters of a normal form come from the text, if that has normalised
characters only -/
theorem mem_of_mem_nfkc {s : Text} (hs : ∀ d ∈ s, U.IsNfkc [d]) {c : Char} (hc : Inert c)
    (h : c ∈ U.nfkc s) : c ∈ s := by
  have h1 : c ∈ (U.nfkc s).flatMap U.dk := by
    rw [List.mem_flatMap]
    exact ⟨c, h, by rw [U.dk_inert c hc]; exact List.mem_cons_self ..⟩
  obtain ⟨d, hd, hcd⟩ := List.mem_flatMap.mp ((U.dk_nfkc s).mem_iff.mp h1)
  rw [U.eq_of_mem_dk c d (hs d hd) hc hcd]
  exact hd

/-- what stands next to a text does not see whether it was normalised -/
structure Conforming (U : Unicode) : Prop where
  nfkc_append : ∀ s t, U.nfkc (U.nfkc s ++ U.nfkc t) = U.nfkc (s ++ t)
  eq_of_mem_dk_invisible : ∀ c d, isInvisible c = true → c ∈ U.dk d → c = d

theorem Conforming.nfkc_append_right (h : U.Conforming) (s t : Text) :
    U.nfkc (s ++ U.nfkc t) = U.nfkc (s ++ t) := by
  rw [← h.nfkc_append, U.nfkc_nfkc, h.nfkc_append]

theorem Conforming.nfkc_append_left (h : U.Conforming) (s t : Text) :
    U.nfkc (U.nfkc s ++ t) = U.nfkc (s ++ t) := by
  rw [← h.nfkc_append, U.nfkc_nfkc, h.nfkc_append]

/-- normalising makes no character invisible -/
theorem Conforming.nfkc_visible (h : U.Conforming) {s : Text}
    (hs : ∀ c ∈ s, isInvisible c = false) : ∀ c ∈ U.nfkc s, isInvisible c = false := by
  intro c hc
  rw [Bool.eq_false_iff]
  intro hi
  have hmem : c ∈ (U.nfkc s).flatMap U.dk := by
    rw [List.mem_flatMap]
    exact ⟨c, hc, by rw [U.dk_inert c (inert_of_invisible hi)]; exact List.mem_cons_self ..⟩
  obtain ⟨d, hd, hcd⟩ := List.mem_flatMap.mp ((U.dk_nfkc s).mem_iff.mp hmem)
  rw [h.eq_of_mem_dk_invisible c d hi hcd, hs d hd] at hi
  cases hi

end Unicode

/-! ## ASCII, `é` and the compatibility spaces -/

namespace Latin

def acute : Char := Char.ofNat 0x301
def eAcute : Char := Char.ofNat 0xE9

def dk (c : Char) : Text :=
  if isCompatSpace c then [' '] else if c = eAcute then ['e', acute] else [c]

/-- canonical composition: `e` and a directly following acute accent become `é` -/
def compose : Text → Text
  | [] => []
  | [c] => [c]
  | c :: d :: t => if c = 'e' ∧ d = acute then eAcute :: compose t else c :: compose (d :: t)

def nfkc (s : Text) : Text := compose (s.flatMap dk)

/-- no compatibility space, and no accent that could be composed -/
def Composed (s : Text) : Prop :=
  (∀ c ∈ s, isCompatSpace c = false) ∧ s.IsChain fun c d => ¬(c = 'e' ∧ d = acute)

/-- fully decomposed -/
def Plain (s : Text) : Prop := ∀ c ∈ s, isCompatSpace c = false ∧ c ≠ eAcute

theorem plain_dk (c : Char) : Plain (dk c) := by
  unfold dk
  split
  · intro d hd
    rw [List.mem_singleton.mp hd]
    decide
  · next hc =>
    split
    · intro d hd
      rcases List.mem_cons.mp hd with rfl | hd
      · decide
      · rw [List.mem_singleton.mp hd]; decide
    · next he =>
      intro d hd
      rw [List.mem_singleton.mp hd]
      exact ⟨by simpa using hc, he⟩

theorem plain_flatMap (s : Text) : Plain (s.flatMap dk) := by
  intro c hc
  obtain ⟨d, _, hd⟩ := List.mem_flatMap.mp hc
  exact plain_dk d c hd

theorem dk_plain {c : Char} (h : isCompatSpace c = false ∧ c ≠ eAcute) : dk c = [c] := by
  unfold dk
  rw [h.1, if_neg Bool.false_ne_true, if_neg h.2]

theorem flatMap_compose {s : Text} (h : Plain s) : (compose s).flatMap dk = s := by
  induction s using compose.induct with
  | case1 => rfl
  | case2 c => simp [compose, dk_plain (h c (List.mem_cons_self ..))]
  | case3 c d t hcd ih =>
    have ht : Plain t := fun x hx => h x (by simp [hx])
    rw [compose, if_pos hcd, List.flatMap_cons, ih ht, hcd.1, hcd.2]
    rfl
  | case4 c d t hcd ih =>
    have ht : Plain (d :: t) := fun x hx => h x (List.mem_cons_of_mem _ hx)
    rw [compose, if_neg hcd, List.flatMap_cons, ih ht, dk_plain (h c (List.mem_cons_self ..))]
    rfl

theorem head_compose {d : Char} {t : Text} {x : Char} (h : x ∈ (compose (d :: t)).head?) :
    x = d ∨ x = eAcute := by
  cases t with
  | nil => left; simpa [compose, eq_comm] using h
  | cons b t =>
    rw [compose] at h
    split at h
    · right; simpa [eq_comm] using h
    · left; simpa [eq_comm] using h

theorem composed_compose {s : Text} (h : Plain s) : Composed (compose s) := by
  induction s using compose.induct with
  | case1 => simp [Composed, compose]
  | case2 c => simp [Composed, compose, (h c (List.mem_cons_self ..)).1]
  | case3 c d t hcd ih =>
    obtain ⟨h1, h2⟩ := ih fun x hx => h x (by simp [hx])
    rw [compose, if_pos hcd]
    refine ⟨?_, List.isChain_cons.mpr ⟨fun y _ hy => ?_, h2⟩⟩
    · intro x hx
      rcases List.mem_cons.mp hx with rfl | hx
      · decide
      · exact h1 x hx
    · exact absurd hy.1 (by decide)
  | case4 c d t hcd ih =>
    obtain ⟨h1, h2⟩ := ih fun x hx => h x (List.mem_cons_of_mem _ hx)
    rw [compose, if_neg hcd]
    refine ⟨?_, List.isChain_cons.mpr ⟨fun y hy he => ?_, h2⟩⟩
    · intro x hx
      rcases List.mem_cons.mp hx with rfl | hx
      · exact (h x (List.mem_cons_self ..)).1
      · exact h1 x hx
    · rcases head_compose hy with rfl | rfl
      · exact hcd he
      · exact absurd he.2 (by decide)

theorem head_flatMap {d : Char} {t : Text} (hd : isCompatSpace d = false) (h : d ≠ acute) :
    ∀ x ∈ ((d :: t).flatMap dk).head?, x ≠ acute := by
  intro x hx
  rw [List.flatMap_cons, dk, hd, if_neg Bool.false_ne_true] at hx
  split at hx
  · cases hx; decide
  · cases hx; exact h

theorem nfkc_composed {s : Text} (h : Composed s) : nfkc s = s := by
  induction s with
  | nil => rfl
  | cons c s ih =>
    obtain ⟨h1, h2⟩ := h
    have hs : Composed s := ⟨fun x hx => h1 x (List.mem_cons_of_mem _ hx), h2.tail⟩
    have ih' : compose (s.flatMap dk) = s := ih hs
    have hc := h1 c (List.mem_cons_self ..)
    unfold nfkc
    rw [List.flatMap_cons, dk, hc, if_neg Bool.false_ne_true]
    split
    · next he =>
      show compose ('e' :: acute :: s.flatMap dk) = c :: s
      rw [compose, if_pos ⟨rfl, rfl⟩, ih', he]
    · next he =>
      show compose (c :: s.flatMap dk) = c :: s
      cases hf : s.flatMap dk with
      | nil =>
        rw [hf] at ih'
        rw [← ih']
        rfl
      | cons d t =>
        have hne : ¬(c = 'e' ∧ d = acute) := by
          rintro ⟨rfl, rfl⟩
          cases s with
          | nil => cases hf
          | cons b s =>
            have hb : b ≠ acute := fun e => (List.isChain_cons.mp h2).1 b rfl ⟨rfl, e⟩
            refine head_flatMap (t := s) (hs.1 b (List.mem_cons_self ..)) hb acute ?_ rfl
            rw [hf]
            rfl
        rw [compose, if_neg hne, ← hf, ih']

theorem composed_nfkc (s : Text) : Composed (nfkc s) := composed_compose (plain_flatMap s)

theorem composed_of_nfkc {s : Text} (h : nfkc s = s) : Composed s := h ▸ composed_nfkc s

theorem compose_inert (x y : Text) (c : Char) (he : c ≠ 'e') (ha : c ≠ acute) :
    compose (x ++ c :: y) = compose x ++ c :: compose y := by
  induction x using compose.induct with
  | case1 =>
    cases y with
    | nil => rfl
    | cons d y =>
      show compose (c :: d :: y) = c :: compose (d :: y)
      rw [compose, if_neg fun h => he h.1]
  | case2 b =>
    have hn : ¬(b = 'e' ∧ c = acute) := fun h => ha h.2
    show compose (b :: c :: y) = b :: c :: compose y
    rw [compose, if_neg hn]
    cases y with
    | nil => rfl
    | cons d y => rw [compose, if_neg fun h => he h.1]
  | case3 a b t hab ih =>
    show compose (a :: b :: (t ++ c :: y)) = compose (a :: b :: t) ++ c :: compose y
    rw [compose, compose, if_pos hab, if_pos hab, ih]
    rfl
  | case4 b d t hbd ih =>
    show compose (b :: d :: (t ++ c :: y)) = compose (b :: d :: t) ++ c :: compose y
    rw [compose, compose, if_neg hbd, if_neg hbd]
    exact congrArg (b :: ·) ih

theorem inert_ne {c d : Char} (hc : Inert c) (hd : ¬Inert d) : c ≠ d := fun e => hd (e ▸ hc)

theorem not_inert_e : ¬Inert 'e' := by unfold Inert; decide
theorem not_inert_acute : ¬Inert acute := by unfold Inert; decide
theorem not_inert_eAcute : ¬Inert eAcute := by unfold Inert; decide

theorem dk_inert (c : Char) (h : Inert c) : dk c = [c] :=
  dk_plain ⟨not_compat_of_inert h, inert_ne h not_inert_eAcute⟩

end Latin

/-- the tables restricted to ASCII, `é` and the compatibility spaces -/
def Unicode.latin : Unicode where
  nfkc := Latin.nfkc
  dk := Latin.dk
  casefoldChar c := [c.toLower]
  isAlnum := Char.isAlphanum
  nfkc_nfkc s := Latin.nfkc_composed (Latin.composed_nfkc s)
  nfkc_infix s t hs ht := by
    obtain ⟨h1, h2⟩ := Latin.composed_of_nfkc hs
    exact Latin.nfkc_composed ⟨fun c hc => h1 c (ht.subset hc), List.IsChain.infix h2 ht⟩
  nfkc_inert x c y hc := by
    unfold Latin.nfkc
    rw [List.flatMap_append, List.flatMap_cons, Latin.dk_inert c hc]
    exact Latin.compose_inert _ _ c (Latin.inert_ne hc Latin.not_inert_e)
      (Latin.inert_ne hc Latin.not_inert_acute)
  dk_ne_nil c := by
    unfold Latin.dk
    split
    · exact List.cons_ne_nil _ _
    · split <;> exact List.cons_ne_nil _ _
  dk_inert := Latin.dk_inert
  eq_of_mem_dk c d hd hc hcd := by
    have hcompat := (Latin.composed_of_nfkc hd).1 d (List.mem_cons_self ..)
    rw [Latin.dk, hcompat, if_neg Bool.false_ne_true] at hcd
    split at hcd
    · rcases List.mem_cons.mp hcd with rfl | h
      · exact absurd hc Latin.not_inert_e
      · rw [List.mem_singleton.mp h] at hc
        exact absurd hc Latin.not_inert_acute
    · exact List.mem_singleton.mp hcd
  dk_nfkc s := by
    unfold Latin.nfkc
    rw [Latin.flatMap_compose (Latin.plain_flatMap s)]
  nfkc_compatSpace c hc := by
    unfold Latin.nfkc
    rw [List.flatMap_cons, Latin.dk, if_pos hc]
    rfl

theorem Unicode.latin_conforming : Unicode.latin.Conforming where
  nfkc_append s t := by
    show Latin.compose ((Latin.compose (s.flatMap Latin.dk) ++
      Latin.compose (t.flatMap Latin.dk)).flatMap Latin.dk) = _
    rw [List.flatMap_append, Latin.flatMap_compose (Latin.plain_flatMap s),
      Latin.flatMap_compose (Latin.plain_flatMap t), ← List.flatMap_append]
    rfl
  eq_of_mem_dk_invisible c d hc hcd := by
    change c ∈ Latin.dk d at hcd
    unfold Latin.dk at hcd
    split at hcd
    · rw [List.mem_singleton.mp hcd] at hc
      exact absurd hc (by decide)
    · split at hcd
      · rcases List.mem_cons.mp hcd with rfl | h
        · exact absurd hc (by decide)
        · rw [List.mem_singleton.mp h] at hc
          exact absurd hc (by decide)
      · exact List.mem_singleton.mp hcd

end GeoRisk
