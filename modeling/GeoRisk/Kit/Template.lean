import GeoRisk.Kit.Run

/-!
# Format strings

`format args t` writes the values of named arguments into a template: `{name}` stands for the value
of `name`, and `{{` and `}}` for a brace.  Values are written as they are and not read again.
Conversions, format specifications and attributes of arguments are no part of the language.

* `Reader`, `readChar`      where the reader of a template is, and what a character makes of it;
* `format`                  the text that a template stands for;
* `compile`, `fill`         the template read once, and the values filled in;
* `format_of_compile`       formatting is reading once and filling in;
* `compile_append`          a template is read piece by piece, if it is cut between two fields;
* `fill_append`, `fill_mono`    pieces are filled one after the other, and from the arguments that
                            their fields name.
-/

namespace Kit

inductive FormatError
  /-- a field that does not end -/
  | unclosed
  /-- a brace inside the name of a field -/
  | nested
  /-- a closing brace without a field -/
  | unopened
  | missing (name : List Char)
  deriving DecidableEq, Repr

abbrev Arguments := List (List Char × List Char)

def Arguments.value? (args : Arguments) (name : List Char) : Option (List Char) :=
  (args.find? fun a => decide (a.1 = name)).map (·.2)

inductive Reader
  | text
  /-- behind an opening brace -/
  | opened
  /-- behind a closing brace that closes nothing -/
  | closed
  /-- behind a part of the name of a field -/
  | field (name : List Char)
  deriving DecidableEq, Repr

/-- what a template is made of -/
inductive Piece
  | char (c : Char)
  | field (name : List Char)
  deriving DecidableEq, Repr

/-- what a character completes, and where it leaves the reader -/
def readChar (r : Reader) (c : Char) : Except FormatError (Option Piece × Reader) :=
  match r with
  | .text =>
    if c = '{' then .ok (none, .opened)
    else if c = '}' then .ok (none, .closed)
    else .ok (some (.char c), .text)
  | .opened =>
    if c = '{' then .ok (some (.char c), .text)
    else if c = '}' then .ok (some (.field []), .text)
    else .ok (none, .field [c])
  | .closed => if c = '}' then .ok (some (.char c), .text) else .error .unopened
  | .field name =>
    if c = '{' then .error .nested
    else if c = '}' then .ok (some (.field name), .text)
    else .ok (none, .field (name ++ [c]))

/-- where a template ends -/
def Reader.stop : Reader → Option FormatError
  | .text => none
  | .closed => some .unopened
  | .opened | .field _ => some .unclosed

def Piece.write (args : Arguments) : Piece → Except FormatError (List Char)
  | .char c => .ok [c]
  | .field name =>
    match args.value? name with
    | none => .error (.missing name)
    | some value => .ok value

/-- the text of a piece, if there is one -/
def writeSome (args : Arguments) : Option Piece → Except FormatError (List Char)
  | none => .ok []
  | some p => p.write args

/-- a template from a character on -/
def formatFrom (args : Arguments) (r : Reader) : List Char → Except FormatError (List Char)
  | [] =>
    match r.stop with
    | some e => .error e
    | none => .ok []
  | c :: rest => do
    let (piece, r) ← readChar r c
    let written ← writeSome args piece
    let rest ← formatFrom args r rest
    return written ++ rest

/-- `template.format(**args)` -/
def format (args : Arguments) (template : List Char) : Except FormatError (List Char) :=
  formatFrom args .text template

/-! ## reading once, filling in -/

def compileFrom (r : Reader) : List Char → Except FormatError (List Piece)
  | [] =>
    match r.stop with
    | some e => .error e
    | none => .ok []
  | c :: rest => do
    let (piece, r) ← readChar r c
    let pieces ← compileFrom r rest
    return piece.toList ++ pieces

def compile (template : List Char) : Except FormatError (List Piece) := compileFrom .text template

def fill (args : Arguments) : List Piece → Except FormatError (List Char)
  | [] => .ok []
  | p :: ps => do
    let written ← p.write args
    let rest ← fill args ps
    return written ++ rest

section
variable {args args' : Arguments} {a b t x y : List Char} {r : Reader} {ps qs : List Piece}

/-- **Formatting is reading once and filling in**, where the template can be read. -/
theorem formatFrom_of_compile (h : compileFrom r t = .ok ps) : formatFrom args r t = fill args ps := by
  induction t generalizing r ps with
  | nil =>
    unfold compileFrom at h
    unfold formatFrom
    cases hr : r.stop with
    | some e =>
      rw [hr] at h
      cases h
    | none =>
      rw [hr] at h
      cases h
      rfl
  | cons c rest ih =>
    obtain ⟨⟨piece, r'⟩, hc, h⟩ := bind_eq_ok.mp h
    obtain ⟨pieces, hrest, h⟩ := bind_eq_ok.mp h
    cases h
    unfold formatFrom
    rw [hc]
    show (writeSome args piece >>= fun written => formatFrom args r' rest >>= fun rest =>
      Except.ok (written ++ rest)) = _
    rw [ih hrest]
    cases piece with
    | none =>
      show (fill args pieces >>= fun rest => Except.ok rest) = fill args pieces
      cases fill args pieces <;> rfl
    | some p => rfl

theorem format_of_compile (h : compile t = .ok ps) : format args t = fill args ps :=
  formatFrom_of_compile h

/-- a piece that is read to its end leaves the reader between two fields -/
theorem compileFrom_append (ha : compileFrom r a = .ok ps) (hb : compile b = .ok qs) :
    compileFrom r (a ++ b) = .ok (ps ++ qs) := by
  induction a generalizing r ps with
  | nil =>
    cases r with
    | text =>
      cases ha
      exact hb
    | opened => cases ha
    | closed => cases ha
    | field name => cases ha
  | cons c a ih =>
    obtain ⟨⟨piece, r'⟩, hc, h⟩ := bind_eq_ok.mp ha
    obtain ⟨pieces, hrest, h⟩ := bind_eq_ok.mp h
    cases h
    refine bind_eq_ok.mpr ⟨(piece, r'), hc, bind_eq_ok.mpr ⟨_, ih hrest, ?_⟩⟩
    rw [List.append_assoc]
    rfl

/-- **A template is read piece by piece.** -/
theorem compile_append (ha : compile a = .ok ps) (hb : compile b = .ok qs) :
    compile (a ++ b) = .ok (ps ++ qs) := compileFrom_append ha hb

theorem fill_append (hp : fill args ps = .ok x) (hq : fill args qs = .ok y) :
    fill args (ps ++ qs) = .ok (x ++ y) := by
  induction ps generalizing x with
  | nil =>
    cases hp
    exact hq
  | cons p ps ih =>
    obtain ⟨written, hw, hp⟩ := bind_eq_ok.mp hp
    obtain ⟨rest, hrest, hp⟩ := bind_eq_ok.mp hp
    cases hp
    refine bind_eq_ok.mpr ⟨written, hw, bind_eq_ok.mpr ⟨_, ih hrest, ?_⟩⟩
    rw [List.append_assoc]
    rfl

/-- characters stand for themselves -/
theorem fill_chars (t : List Char) : fill args (t.map .char) = .ok t := by
  induction t with
  | nil => rfl
  | cons c t ih => exact bind_eq_ok.mpr ⟨[c], rfl, bind_eq_ok.mpr ⟨t, ih, rfl⟩⟩

theorem fill_field {name value : List Char} (h : args.value? name = some value) :
    fill args [.field name] = .ok value := by
  refine bind_eq_ok.mpr ⟨value, ?_, bind_eq_ok.mpr ⟨[], rfl, ?_⟩⟩
  · show (match args.value? name with
      | none => Except.error (FormatError.missing name)
      | some value => Except.ok value) = _
    rw [h]
  · rw [List.append_nil]
    rfl

/-- pieces whose fields all have values can be filled -/
theorem fill_ok (h : ∀ name, .field name ∈ ps → (args.value? name).isSome = true) :
    ∃ x, fill args ps = .ok x := by
  induction ps with
  | nil => exact ⟨[], rfl⟩
  | cons p ps ih =>
    obtain ⟨rest, hrest⟩ := ih fun name hn => h name (List.mem_cons_of_mem _ hn)
    cases p with
    | char c => exact ⟨_, bind_eq_ok.mpr ⟨[c], rfl, bind_eq_ok.mpr ⟨rest, hrest, rfl⟩⟩⟩
    | field name =>
      obtain ⟨value, hv⟩ := Option.isSome_iff_exists.mp (h name (List.mem_cons_self ..))
      have hone : fill args [.field name] = .ok value := fill_field hv
      exact ⟨_, fill_append hone hrest⟩

/-- **Only the arguments that the fields name matter.** -/
theorem fill_mono (hargs : ∀ name v, args.value? name = some v → args'.value? name = some v)
    (h : fill args ps = .ok x) : fill args' ps = .ok x := by
  induction ps generalizing x with
  | nil => exact h
  | cons p ps ih =>
    obtain ⟨written, hw, h⟩ := bind_eq_ok.mp h
    obtain ⟨rest, hrest, h⟩ := bind_eq_ok.mp h
    refine bind_eq_ok.mpr ⟨written, ?_, bind_eq_ok.mpr ⟨rest, ih hrest, h⟩⟩
    cases p with
    | char c => exact hw
    | field name =>
      simp only [Piece.write] at hw ⊢
      cases hv : args.value? name with
      | none =>
        rw [hv] at hw
        cases hw
      | some v =>
        rw [hv] at hw
        rw [hargs name v hv]
        exact hw

end

end Kit
