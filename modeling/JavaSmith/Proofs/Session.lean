import JavaSmith.Proofs.ValueTypes

/-! The catalog of a session. Registering finds a place for every descriptor and forgets none, so
preparing a session cannot fail, and nothing is catalogued but the basic types, the boxed ones and
two classes of the library. -/
namespace JavaSmith.Catalog

theorem mem_insertType {t u : Ty} {ts : List Ty} (h : u ∈ insertType t ts) : u = t ∨ u ∈ ts := by
  induction ts with
  | nil => simpa [insertType] using h
  | cons first rest ih =>
    unfold insertType at h
    split at h
    · simpa using h
    · split at h
      · exact .inr h
      · rcases List.mem_cons.1 h with same | later
        · exact .inr (same ▸ List.mem_cons_self)
        · exact (ih later).imp id (List.mem_cons_of_mem _)

theorem mem_insertType_of_mem (t : Ty) {u : Ty} {ts : List Ty} (h : u ∈ ts) :
    u ∈ insertType t ts := by
  induction ts with
  | nil => contradiction
  | cons first rest ih =>
    unfold insertType
    split
    · exact List.mem_cons_of_mem _ h
    · split
      · exact h
      · rcases List.mem_cons.1 h with same | later
        · exact same ▸ List.mem_cons_self
        · exact List.mem_cons_of_mem _ (ih later)

theorem exists_descriptor_insertType (t : Ty) (ts : List Ty) :
    ∃ u ∈ insertType t ts, u.descriptor = t.descriptor := by
  induction ts with
  | nil => exact ⟨t, by simp [insertType], rfl⟩
  | cons first rest ih =>
    unfold insertType
    split
    · exact ⟨t, List.mem_cons_self, rfl⟩
    · split
      · next same => exact ⟨first, List.mem_cons_self, same.symm⟩
      · obtain ⟨u, member, same⟩ := ih
        exact ⟨u, List.mem_cons_of_mem _ member, same⟩

def Has (c : Catalog) (descriptor : String) : Prop := ∃ t ∈ c.types, t.descriptor = descriptor

theorem has_register (c : Catalog) (t : Ty) : (c.register t).Has t.descriptor :=
  exists_descriptor_insertType t c.types

theorem Has.register {c : Catalog} {descriptor : String} (h : c.Has descriptor) (t : Ty) :
    (c.register t).Has descriptor := by
  obtain ⟨u, member, same⟩ := h
  exact ⟨u, mem_insertType_of_mem t member, same⟩

theorem Has.registerAll {c : Catalog} {descriptor : String} (h : c.Has descriptor) (ts : List Ty) :
    (c.registerAll ts).Has descriptor := by
  induction ts generalizing c with
  | nil => exact h
  | cons t rest ih => exact ih (h.register t)

theorem has_registerAll (c : Catalog) {t : Ty} {ts : List Ty} (h : t ∈ ts) :
    (c.registerAll ts).Has t.descriptor := by
  induction ts generalizing c with
  | nil => contradiction
  | cons first rest ih =>
    rcases List.mem_cons.1 h with same | later
    · exact same ▸ (c.has_register t).registerAll rest
    · exact ih (c.register first) later

theorem mem_types_register {c : Catalog} {t u : Ty} (h : u ∈ (c.register t).types) :
    u = t ∨ u ∈ c.types :=
  mem_insertType h

theorem mem_types_registerAll {c : Catalog} {u : Ty} {ts : List Ty}
    (h : u ∈ (c.registerAll ts).types) : u ∈ ts ∨ u ∈ c.types := by
  induction ts generalizing c with
  | nil => exact .inr h
  | cons t rest ih =>
    rcases ih (c := c.register t) h with later | old
    · exact .inl (List.mem_cons_of_mem _ later)
    · rcases mem_types_register old with same | old
      · exact .inl (same ▸ List.mem_cons_self)
      · exact .inr old

theorem mem_of_lookup? {c : Catalog} {descriptor : String} {t : Ty}
    (h : c.lookup? descriptor = some t) : t ∈ c.types ∧ t.descriptor = descriptor :=
  ⟨List.mem_of_find?_eq_some h, by simpa using List.find?_some h⟩

theorem Has.lookup {c : Catalog} {descriptor : String} (h : c.Has descriptor) :
    ∃ t ∈ c.types, t.descriptor = descriptor ∧ c.lookup descriptor = .ok t := by
  cases found : c.lookup? descriptor with
  | none =>
    obtain ⟨t, member, same⟩ := h
    exact absurd (by simpa using same) (List.find?_eq_none.1 found t member)
  | some t =>
    obtain ⟨member, same⟩ := mem_of_lookup? found
    exact ⟨t, member, same, by rw [Catalog.lookup, found]⟩

def stringBuilderType : Ty := .named Library.stringBuilder true [[], [.string]]

def mathType : Ty := .named Library.math true []

def sessionTypes : List Ty :=
  basicTypes ++ Kind.all.map .boxed ++ [stringBuilderType, mathType]

/-- A session catalogues no other types, and has its operations and its index type from them and from
the settings. -/
structure Prepared (c : Catalog) (knobs : Knobs) : Prop where
  known : ∀ t ∈ c.types, t ∈ sessionTypes
  indexType : c.indexType = .arraySize (knobs.get .maxArrayDimensionSize)
  operations : ∀ op ∈ c.operations, ∃ e ∈ Library.entries,
    Library.excludedNames.contains e.name = false ∧ c.resolve? e = some op

theorem eq_string_of_descriptor {t : Ty} (h : t ∈ basicTypes ++ Kind.all.map Ty.boxed)
    (descriptor : t.descriptor = Library.string) : t = .string := by
  have checked : (basicTypes ++ Kind.all.map Ty.boxed).all
      (fun t => t.descriptor != Library.string || t.same .string) = true := by decide
  have same : t.same .string = true := by
    have := List.all_eq_true.1 checked t h
    rwa [descriptor, bne_self_eq_false, Bool.false_or] at this
  cases t <;> first | rfl | contradiction

theorem registerLibrary_of_lookup {c : Catalog} {t : Ty}
    (found : (c.registerAll (Kind.all.map .boxed)).lookup Library.string = .ok t) :
    c.registerLibrary = .ok (((c.registerAll (Kind.all.map .boxed)).register
      (.named Library.stringBuilder true [[], [t]])).register mathType) := by
  unfold registerLibrary
  simp only [Library.stringBuilderParameters, lookupAll, List.mapM_cons, List.mapM_nil, found]
  rfl

theorem registerLibrary_eq {c : Catalog} (known : ∀ t ∈ c.types, t ∈ basicTypes)
    (string : c.Has Library.string) :
    c.registerLibrary =
      .ok (((c.registerAll (Kind.all.map .boxed)).register stringBuilderType).register mathType) := by
  obtain ⟨t, member, same, found⟩ := (string.registerAll (Kind.all.map .boxed)).lookup
  have basicOrBoxed : t ∈ basicTypes ++ Kind.all.map Ty.boxed := by
    rcases mem_types_registerAll member with boxed | basic
    · exact List.mem_append_right _ boxed
    · exact List.mem_append_left _ (known t basic)
  obtain rfl := eq_string_of_descriptor basicOrBoxed same
  exact registerLibrary_of_lookup found

theorem valued_of_mem_sessionTypes {t : Ty} (h : t ∈ sessionTypes) :
    t = .void ∨ t = mathType ∨ t.Valued ∧ t.dimensions = 0 := by
  simp only [sessionTypes, basicTypes, List.mem_append, List.mem_map, List.mem_cons,
    List.not_mem_nil, or_false] at h
  rcases h with ((⟨k, _, rfl⟩ | rfl | rfl | rfl | rfl) | ⟨k, _, rfl⟩) | rfl | rfl
  · exact .inr (.inr ⟨trivial, rfl⟩)
  · exact .inl rfl
  · exact .inr (.inr ⟨trivial, rfl⟩)
  · exact .inr (.inr ⟨trivial, rfl⟩)
  · exact .inr (.inr ⟨trivial, rfl⟩)
  · exact .inr (.inr ⟨trivial, rfl⟩)
  · refine .inr (.inr ⟨⟨List.mem_cons_self, fun params member t inside => ?_⟩, rfl⟩)
    simp only [List.mem_cons, List.not_mem_nil, or_false] at member
    rcases member with rfl | rfl
    · contradiction
    · rw [List.mem_singleton.1 inside]
      rfl
  · exact .inr (.inl rfl)

theorem ne_restricted_of_mem_sessionTypes {t : Ty} (h : t ∈ sessionTypes) (r : Restriction) :
    t ≠ .restricted r := by
  rintro rfl
  simp [sessionTypes, basicTypes, stringBuilderType, mathType] at h

/-- Every session can be prepared. -/
theorem prepare_reset (c : Catalog) (knobs : Knobs) :
    ∃ prepared, c.reset.prepare knobs = .ok prepared ∧ prepared.Prepared knobs := by
  have basic : ∀ t ∈ c.reset.types, t ∈ basicTypes := by
    intro t member
    rcases mem_types_registerAll member with basic | none
    · exact basic
    · contradiction
  have string : c.reset.Has Library.string :=
    has_registerAll _ (t := .string) (by simp [basicTypes])
  have known : ∀ t ∈ (((c.reset.registerAll (Kind.all.map .boxed)).register
      stringBuilderType).register mathType).types, t ∈ sessionTypes := by
    intro t member
    unfold sessionTypes
    rcases mem_types_register member with rfl | member
    · simp
    · rcases mem_types_register member with rfl | member
      · simp
      · rcases mem_types_registerAll member with boxed | old
        · exact List.mem_append_left _ (List.mem_append_right _ boxed)
        · exact List.mem_append_left _ (List.mem_append_left _ (basic t old))
  unfold prepare
  rw [registerLibrary_eq basic string]
  -- what is registered is not to be computed
  generalize ((c.reset.registerAll (Kind.all.map .boxed)).register stringBuilderType).register
    mathType = library at known ⊢
  refine ⟨_, rfl, known, rfl, fun op member => ?_⟩
  obtain ⟨e, admitted, resolved⟩ := List.mem_filterMap.1 member
  obtain ⟨listed, kept⟩ := List.mem_filter.1 admitted
  refine ⟨e, listed, by simpa using kept, (Option.filter_eq_some_iff.1 resolved).1⟩

theorem entries_types : ∀ e ∈ Library.entries, Library.excludedNames.contains e.name = false →
    (∀ d ∈ e.params, d ≠ "void" ∧ d ≠ Library.math) ∧
    (e.isStatic = false → e.declaring ≠ "void" ∧ e.declaring ≠ Library.math) ∧
    e.returns ≠ "void" ∧ e.returns ≠ Library.math := by
  decide

theorem exists_of_mem_mapM {α β : Type} {f : α → Option β} {xs : List α} {ys : List β}
    (h : xs.mapM f = some ys) {y : β} (member : y ∈ ys) : ∃ x ∈ xs, f x = some y := by
  induction xs generalizing ys with
  | nil =>
    cases h
    contradiction
  | cons x rest ih =>
    rw [List.mapM_cons] at h
    obtain ⟨first, made, h⟩ := Option.bind_eq_some_iff.1 h
    obtain ⟨others, madeOthers, h⟩ := Option.bind_eq_some_iff.1 h
    cases h
    rcases List.mem_cons.1 member with rfl | later
    · exact ⟨x, List.mem_cons_self, made⟩
    · obtain ⟨z, inside, made⟩ := ih madeOthers later
      exact ⟨z, List.mem_cons_of_mem _ inside, made⟩

theorem exists_of_resolve? {c : Catalog} {e : Library.Entry} {op : Operation}
    (resolved : c.resolve? e = some op) :
    ∃ owner result types, c.lookup? e.declaring = some owner ∧ c.lookup? e.returns = some result ∧
      e.params.mapM c.lookup? = some types ∧
      op = ⟨owner, e.name, e.isStatic, result, types, e.risk⟩ := by
  unfold resolve? at resolved
  obtain ⟨owner, ownerFound, resolved⟩ := Option.bind_eq_some_iff.1 resolved
  obtain ⟨result, resultFound, resolved⟩ := Option.bind_eq_some_iff.1 resolved
  obtain ⟨types, typesFound, resolved⟩ := Option.bind_eq_some_iff.1 resolved
  cases resolved
  exact ⟨owner, result, types, ownerFound, resultFound, typesFound, rfl⟩

theorem mem_types_of_resolve? {c : Catalog} {e : Library.Entry} {op : Operation}
    (resolved : c.resolve? e = some op) :
    op.declaring ∈ c.types ∧ op.returns ∈ c.types ∧ ∀ t ∈ op.params, t ∈ c.types := by
  obtain ⟨owner, result, types, ownerFound, resultFound, typesFound, rfl⟩ :=
    exists_of_resolve? resolved
  refine ⟨(mem_of_lookup? ownerFound).1, (mem_of_lookup? resultFound).1, fun t member => ?_⟩
  obtain ⟨descriptor, _, found⟩ := exists_of_mem_mapM typesFound member
  exact (mem_of_lookup? found).1

namespace Prepared

variable {c : Catalog} {knobs : Knobs}

theorem valued (prepared : c.Prepared knobs) {t : Ty} (h : t ∈ c.valueTypes) :
    t.Valued ∧ t.dimensions = 0 := by
  obtain ⟨member, value⟩ := List.mem_filter.1 h
  rcases valued_of_mem_sessionTypes (prepared.known t member) with rfl | rfl | valued
  · contradiction
  · contradiction
  · exact valued

theorem valued_of_lookup? (prepared : c.Prepared knobs) {descriptor : String} {t : Ty}
    (found : c.lookup? descriptor = some t) (notVoid : descriptor ≠ "void")
    (notMath : descriptor ≠ Library.math) : t.Valued := by
  obtain ⟨member, rfl⟩ := mem_of_lookup? found
  rcases valued_of_mem_sessionTypes (prepared.known t member) with rfl | rfl | valued
  · exact absurd rfl notVoid
  · exact absurd rfl notMath
  · exact valued.1

/-- All values that an admitted operation takes or gives are of types that values can have. -/
theorem operation_valued (prepared : c.Prepared knobs) {op : Operation} (h : op ∈ c.operations) :
    (∀ t ∈ op.parameters, t.Valued) ∧ op.returns.Valued := by
  obtain ⟨e, listed, kept, resolved⟩ := prepared.operations op h
  obtain ⟨params, declaring, returns⟩ := entries_types e listed kept
  obtain ⟨owner, result, types, ownerFound, resultFound, typesFound, rfl⟩ :=
    exists_of_resolve? resolved
  have given : ∀ t ∈ types, t.Valued := by
    intro t member
    obtain ⟨d, param, found⟩ := exists_of_mem_mapM typesFound member
    exact prepared.valued_of_lookup? found (params d param).1 (params d param).2
  refine ⟨fun t member => ?_, prepared.valued_of_lookup? resultFound returns.1 returns.2⟩
  unfold Operation.parameters at member
  dsimp only at member
  split at member
  · exact given t member
  · next onObject =>
    rcases List.mem_cons.1 member with same | param
    · have := declaring (by simpa using onObject)
      exact same ▸ prepared.valued_of_lookup? ownerFound this.1 this.2
    · exact given t param

theorem returns_ne_restricted (prepared : c.Prepared knobs) {op : Operation} (h : op ∈ c.operations)
    (r : Restriction) : op.returns ≠ .restricted r := by
  obtain ⟨e, _, _, resolved⟩ := prepared.operations op h
  have known := prepared.known _ (mem_types_of_resolve? resolved).2.1
  exact ne_restricted_of_mem_sessionTypes known r

end Prepared

end JavaSmith.Catalog
