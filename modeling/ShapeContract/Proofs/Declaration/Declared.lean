import ShapeContract.Declaration.Document
import ShapeContract.Proofs.Rule.Keyed

/-!
# What a definition declares

A nested block declares nothing of its own, only dotted paths for what is in it. So the paths of a
document are those of the declarations in its definitions, in order and up to the first that fails,
each with the descriptor that was declared last: `Document.added_eq`. A descriptor that has been
declared has a kind tag and options, and an embedded schema only under the tag of one:
`Descriptor.Made`.
-/

set_option autoImplicit false

namespace ShapeContract

/-- The descriptors that declarations make. -/
inductive Descriptor.Made : Descriptor → Prop
  | plain (tag : String) (options : Fields Value) :
    Made { kind := .str tag, options := .object options }
  | array (options : Fields Value) {caster : Descriptor} (made : Made caster) :
    Made { kind := .str SchemaKind.array.text, options := .object options, caster := some caster }
  | embedded (options : Fields Value) (r : SourceRef) :
    Made { kind := .str SchemaKind.embedded.text, options := .object options,
           schema := some (.source r) }
  | block (options : Fields Value) {paths : Fields Descriptor} (own : paths.keys.Nodup)
    (made : ∀ e ∈ paths, Made e.2) :
    Made { kind := .str SchemaKind.embedded.text, options := .object options, block := some paths }

namespace Document

variable {paths : Fields Descriptor} {base : String} {d : Descriptor} {options : Fields Value}

/-! ## One declaration at a time -/

/-- What is declared next, unless a declaration has failed. -/
def andThen (declared : Declared) (next : Fields Descriptor → Declared) : Declared :=
  match declared with
  | (paths, none) => next paths
  | (paths, some e) => (paths, some e)

/-- Declares a declaration at a path; a nested block is declared below it. -/
def declareAt (paths : Fields Descriptor) (path : String) : Value → Declared
  | .object fs =>
    if Fields.contains fs "type" then declare paths path (describeType (Fields.erase fs "type") fs)
    else declareFields paths (path ++ ".") fs
  | v => declare paths path (describe false [] v)

theorem declareFields_cons (paths : Fields Descriptor) (base key : String) (v : Value)
    (rest : List (String × Value)) : declareFields paths base ((key, v) :: rest) =
      andThen (declareAt paths (base ++ key) v) fun paths => declareFields paths base rest := by
  cases v <;> rfl

theorem describeType_cons (options : Fields Value) (key : String) (v : Value)
    (rest : List (String × Value)) : describeType options ((key, v) :: rest) =
      if key = "type" then describe false options v else describeType options rest := rfl

theorem exists_tag {v k : Value} (read : kindOf v = .ok k) : ∃ tag, k = .str tag := by
  unfold kindOf at read
  split at read
  · exact ⟨_, (Except.ok.inj read).symm⟩
  · split at read
    · exact ⟨_, (Except.ok.inj read).symm⟩
    · split at read
      · exact ⟨_, (Except.ok.inj read).symm⟩
      · cases read

/-- The descriptor of a type, by what the type is. -/
theorem describe_cases {element : Bool} {v : Value} (read : describe element options v = .ok d) :
    (∃ fs, v = .object fs ∧ describeType (Fields.erase fs "type") fs = .ok d) ∨
    (∃ fs paths, v = .object fs ∧ declareFields [] "" fs = (paths, none) ∧
      d = { kind := .str SchemaKind.embedded.text, options := .object [], block := some paths }) ∨
    (∃ e rest caster, v = .list (e :: rest) ∧ describe true [] e = .ok caster ∧
      d = { kind := .str SchemaKind.array.text, options := .object options, caster := some caster }) ∨
    (∃ r, d = { kind := .str SchemaKind.embedded.text, options := .object options,
                schema := some (.source r) }) ∨
    ∃ tag options, d = { kind := .str tag, options := .object options } := by
  have byKind (read : (do
      let kind ← kindOf v
      pure { kind := kind, options := .object options } : Except Failure Descriptor) = .ok d) :
      ∃ tag options, d = { kind := .str tag, options := .object options } := by
    obtain ⟨k, kind, same⟩ := Rule.bind_ok_iff.1 read
    obtain ⟨tag, rfl⟩ := exists_tag kind
    exact ⟨tag, options, (Except.ok.inj same).symm⟩
  cases v with
  | object fs =>
    change (if !element then .error .typeMisuse
      else if Fields.contains fs "type" then describeType (Fields.erase fs "type") fs
      else
        match declareFields [] "" fs with
        | (paths, none) =>
          .ok { kind := .str SchemaKind.embedded.text, options := .object [], block := some paths }
        | (_, some e) => .error e) = .ok d at read
    split at read
    · cases read
    · split at read
      · exact .inl ⟨fs, rfl, read⟩
      · split at read
        next paths declared => exact .inr (.inl ⟨fs, paths, rfl, declared, (Except.ok.inj read).symm⟩)
        next => cases read
  | list vs =>
    cases vs with
    | nil => exact .inr (.inr (.inr (.inr ⟨_, options, (Except.ok.inj read).symm⟩)))
    | cons e rest =>
      obtain ⟨caster, inner, same⟩ := Rule.bind_ok_iff.1 read
      exact .inr (.inr (.inl ⟨e, rest, caster, rfl, inner, (Except.ok.inj same).symm⟩))
  | source r =>
    rw [describe] at read
    split at read
    · exact .inr (.inr (.inr (.inl ⟨r, (Except.ok.inj read).symm⟩)))
    · exact .inr (.inr (.inr (.inr (byKind read))))
  | enumeration n ms textual =>
    exact .inr (.inr (.inr (.inr ⟨_, _, (Except.ok.inj read).symm⟩)))
  | _ => exact .inr (.inr (.inr (.inr (byKind read))))

/-! ## What is declared -/

theorem mem_declare {path : String} {made : Except Failure Descriptor} {e : String × Descriptor}
    (inside : e ∈ (declare paths path made).1) : e ∈ paths ∨ made = .ok e.2 := by
  cases made with
  | error e => exact .inl inside
  | ok d => exact (Fields.mem_put inside).imp id fun same => by rw [same]

theorem nodup_declare {path : String} (own : paths.keys.Nodup) (made : Except Failure Descriptor) :
    (declare paths path made).1.keys.Nodup := by
  cases made with
  | error e => exact own
  | ok d => exact Fields.nodup_keys_put own path d

mutual

theorem made_describe (v : Value) {element : Bool} {options : Fields Value} {d : Descriptor}
    (read : describe element options v = .ok d) : d.Made := by
  rcases describe_cases read with ⟨fs, rfl, typed⟩ | ⟨fs, paths, rfl, declared, rfl⟩ |
    ⟨e, rest, caster, rfl, inner, rfl⟩ | ⟨r, rfl⟩ | ⟨tag, options, rfl⟩
  · exact made_describeType fs typed
  · have listed : (declareFields [] "" fs).1.keys.Nodup ∧
        ∀ e ∈ (declareFields [] "" fs).1, e.2.Made :=
      listed_declareFields fs "" List.nodup_nil fun _ inside => absurd inside List.not_mem_nil
    rw [declared] at listed
    exact .block [] listed.1 listed.2
  · exact .array options (made_describe e inner)
  · exact .embedded options r
  · exact .plain tag options
termination_by sizeOf v

theorem made_describeType (fs : List (String × Value)) {options : Fields Value} {d : Descriptor}
    (read : describeType options fs = .ok d) : d.Made := by
  match fs with
  | [] => cases read
  | (key, v) :: rest =>
    rw [describeType_cons] at read
    split at read
    · exact made_describe v read
    · exact made_describeType rest read
termination_by sizeOf fs

/-- Declared paths have names of their own and descriptors that are made. -/
theorem listed_declareFields (fs : List (String × Value)) (base : String) {paths : Fields Descriptor}
    (own : paths.keys.Nodup) (made : ∀ e ∈ paths, e.2.Made) :
    (declareFields paths base fs).1.keys.Nodup ∧ ∀ e ∈ (declareFields paths base fs).1, e.2.Made := by
  match fs with
  | [] => exact ⟨own, made⟩
  | (key, v) :: rest =>
    have here : (declareAt paths (base ++ key) v).1.keys.Nodup ∧
        ∀ e ∈ (declareAt paths (base ++ key) v).1, e.2.Made := by
      have one {read : Except Failure Descriptor} (madeOf : ∀ d, read = .ok d → d.Made) :
          (declare paths (base ++ key) read).1.keys.Nodup ∧
            ∀ e ∈ (declare paths (base ++ key) read).1, e.2.Made :=
        ⟨nodup_declare own read, fun e inside => (mem_declare inside).elim (made e) (madeOf e.2)⟩
      by_cases block : ∃ inner, v = .object inner
      · obtain ⟨inner, rfl⟩ := block
        rw [declareAt]
        split
        · exact one fun d read => made_describeType inner read
        · exact listed_declareFields inner _ own made
      · rw [declareAt]
        · exact one fun d read => made_describe v read
        · exact fun inner same => block ⟨inner, same⟩
    rw [declareFields_cons]
    generalize declareAt paths (base ++ key) v = declared at here
    obtain ⟨paths', failure⟩ := declared
    cases failure with
    | none => exact listed_declareFields rest base here.1 here.2
    | some e => exact here
termination_by sizeOf fs

end

/-! ## Declarations by dotted path -/

mutual

/-- What is declared at a path: a nested block declares what is in it, below the path. -/
def declarationsAt (path : String) : Value → List (String × Value)
  | .object fs =>
    if Fields.contains fs "type" then [(path, .object fs)] else declarations (path ++ ".") fs
  | v => [(path, v)]

/-- The declarations of a definition below a path that ends in a dot, or the empty one. -/
def declarations (base : String) : List (String × Value) → List (String × Value)
  | [] => []
  | (key, v) :: rest => declarationsAt (base ++ key) v ++ declarations base rest

end

/-- The descriptor of a declaration that is no nested block. -/
def descriptorOf : Value → Except Failure Descriptor
  | .object fs => describeType (Fields.erase fs "type") fs
  | v => describe false [] v

/-- The descriptors of declarations up to the first that has none. -/
def described : List (String × Value) → Fields Descriptor
  | [] => []
  | (path, v) :: rest =>
    match descriptorOf v with
    | .ok d => (path, d) :: described rest
    | .error _ => []

/-- The failure of the first declaration that has no descriptor. -/
def failure? : List (String × Value) → Option Failure
  | [] => none
  | (_, v) :: rest =>
    match descriptorOf v with
    | .ok _ => failure? rest
    | .error e => some e

/-- Declares declarations in order, up to the first failure. -/
def declareAll (paths : Fields Descriptor) (ds : List (String × Value)) : Declared :=
  (paths.putAll (described ds), failure? ds)

theorem declareAll_cons (paths : Fields Descriptor) (path : String) (v : Value)
    (rest : List (String × Value)) : declareAll paths ((path, v) :: rest) =
      andThen (declare paths path (descriptorOf v)) fun paths => declareAll paths rest := by
  rw [declareAll, described, failure?]
  cases descriptorOf v <;> rfl

theorem declareAll_append (ds more : List (String × Value)) : ∀ paths : Fields Descriptor,
    declareAll paths (ds ++ more) =
      andThen (declareAll paths ds) fun paths => declareAll paths more := by
  induction ds with
  | nil => exact fun _ => rfl
  | cons d rest ih =>
    obtain ⟨path, v⟩ := d
    intro paths
    rw [List.cons_append, declareAll_cons, declareAll_cons]
    cases descriptorOf v with
    | ok d => exact ih _
    | error e => rfl

/-- **A nested block is its dotted paths**: a definition is declared as its declarations in order. -/
theorem declareFields_eq (fs : List (String × Value)) (base : String) (paths : Fields Descriptor) :
    declareFields paths base fs = declareAll paths (declarations base fs) := by
  match fs with
  | [] => rfl
  | (key, v) :: rest =>
    have here : declareAt paths (base ++ key) v =
        declareAll paths (declarationsAt (base ++ key) v) := by
      have one : declareAll paths [(base ++ key, v)] =
          declare paths (base ++ key) (descriptorOf v) := by
        rw [declareAll_cons]
        cases descriptorOf v <;> rfl
      by_cases block : ∃ inner, v = .object inner
      · obtain ⟨inner, rfl⟩ := block
        rw [declareAt, declarationsAt]
        split
        · exact one.symm
        · exact declareFields_eq inner _ paths
      · have plain : ∀ inner, v = .object inner → False := fun inner same => block ⟨inner, same⟩
        rw [declareAt, declarationsAt, one, descriptorOf]
        all_goals exact plain
    rw [declareFields_cons, here, declarations, declareAll_append]
    exact congrArg (andThen _) (funext fun paths => declareFields_eq rest base paths)
termination_by sizeOf fs

/-! ## Documents -/

/-- The paths of a document after calls of `add`, each with its base and definition. What a call that
fails has declared before stays declared. -/
def added (calls : List (String × Value)) : Fields Descriptor :=
  calls.foldl (fun paths call => (add paths call.1 call.2).1) []

/-- What a call declares, path by path. -/
def declaredBy (call : String × Value) : Fields Descriptor :=
  match call.2 with
  | .object fs => described (declarations call.1 fs)
  | _ => []

/-- What calls declare together; the last declaration of a path counts. -/
def declared (calls : List (String × Value)) : Fields Descriptor :=
  Fields.ofList (calls.flatMap declaredBy)

/-- **The paths of a document** are what its calls declare. -/
theorem added_eq (calls : List (String × Value)) : added calls = declared calls := by
  have next (paths : Fields Descriptor) (call : String × Value) :
      (add paths call.1 call.2).1 = paths.putAll (declaredBy call) := by
    obtain ⟨base, definition⟩ := call
    cases definition with
    | object fs => exact congrArg Prod.fst (declareFields_eq fs base paths)
    | _ => rfl
  have all : ∀ paths : Fields Descriptor,
      calls.foldl (fun paths call => (add paths call.1 call.2).1) paths =
        paths.putAll (calls.flatMap declaredBy) := by
    induction calls with
    | nil => exact fun _ => rfl
    | cons call rest ih =>
      intro paths
      rw [List.foldl_cons, next, ih, List.flatMap_cons]
      exact List.foldl_append.symm
  exact all []

/-- The paths of a document have names of their own and descriptors that are made. -/
theorem listed_added (calls : List (String × Value)) :
    (added calls).keys.Nodup ∧ ∀ e ∈ added calls, e.2.Made := by
  suffices all : ∀ paths : Fields Descriptor, paths.keys.Nodup ∧ (∀ e ∈ paths, e.2.Made) →
      (calls.foldl (fun paths call => (add paths call.1 call.2).1) paths).keys.Nodup ∧
        ∀ e ∈ calls.foldl (fun paths call => (add paths call.1 call.2).1) paths, e.2.Made from
    all [] ⟨List.nodup_nil, fun _ inside => absurd inside List.not_mem_nil⟩
  induction calls with
  | nil => exact fun _ listed => listed
  | cons call rest ih =>
    refine fun paths listed => ih _ ?_
    obtain ⟨base, definition⟩ := call
    cases definition with
    | object fs => exact listed_declareFields fs base listed.1 listed.2
    | _ => exact listed

end Document

end ShapeContract
