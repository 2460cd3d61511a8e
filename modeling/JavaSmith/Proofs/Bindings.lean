import Mathlib.Data.String.Basic
import JavaSmith.Proofs.Ascending
import JavaSmith.Proofs.Independence

/-! What holds of a catalog however it is used. A descriptor is bound to the type that came first, and
the basic types come before all others, so nothing that is registered later can stand for one of
them: a restricted type has the descriptor of its kind and finds it taken. Operations are admitted
with types that are catalogued then, and types go only when operations go. -/
namespace JavaSmith

namespace Catalog

theorem map_insertType (t : Ty) (ts : List Ty) :
    (insertType t ts).map Ty.descriptor = insertAscending t.descriptor (ts.map Ty.descriptor) := by
  induction ts with
  | nil => rfl
  | cons u rest ih =>
    rw [insertType, List.map_cons, insertAscending]
    split
    · rfl
    · split
      · rfl
      · rw [List.map_cons, ih]

/-- Each descriptor is bound to one type, in the order of the descriptors. -/
abbrev Filed (c : Catalog) : Prop := (c.types.map Ty.descriptor).Pairwise (· < ·)

variable {c c' : Catalog} {t u : Ty}

theorem Filed.register (filed : c.Filed) (t : Ty) : (c.register t).Filed := by
  unfold Filed Catalog.register
  rw [map_insertType]
  exact pairwise_insertAscending t.descriptor filed

theorem Filed.registerAll (filed : c.Filed) (ts : List Ty) : (c.registerAll ts).Filed := by
  induction ts generalizing c with
  | nil => exact filed
  | cons t rest ih => exact ih (filed.register t)

theorem Filed.eq_of_descriptor (filed : c.Filed) (ht : t ∈ c.types) (hu : u ∈ c.types)
    (same : t.descriptor = u.descriptor) : t = u :=
  List.inj_on_of_nodup_map (List.Pairwise.imp (fun less => ne_of_lt less) filed) ht hu same

theorem Filed.lookup?_eq_some_iff (filed : c.Filed) {descriptor : String} :
    c.lookup? descriptor = some t ↔ t ∈ c.types ∧ t.descriptor = descriptor := by
  refine ⟨mem_of_lookup?, ?_⟩
  rintro ⟨member, rfl⟩
  cases found : c.lookup? t.descriptor with
  | none => exact absurd (beq_self_eq_true _) (List.find?_eq_none.1 found t member)
  | some u =>
    obtain ⟨member', same⟩ := mem_of_lookup? found
    rw [filed.eq_of_descriptor member' member same]

/-- What holds of a catalog after any use. -/
structure Coherent (c : Catalog) : Prop where
  filed : c.Filed
  basic : ∀ t ∈ basicTypes, t ∈ c.types
  unrestricted : ∀ r, .restricted r ∉ c.types
  operations : ∀ op ∈ c.operations,
    op.declaring ∈ c.types ∧ op.returns ∈ c.types ∧ ∀ t ∈ op.params, t ∈ c.types

abbrev Keeps (c c' : Catalog) : Prop := c.types ⊆ c'.types

theorem keeps_register (c : Catalog) (t : Ty) : c.Keeps (c.register t) :=
  fun _ member => mem_insertType_of_mem t member

theorem keeps_registerAll (c : Catalog) (ts : List Ty) : c.Keeps (c.registerAll ts) := by
  induction ts generalizing c with
  | nil => exact List.Subset.refl _
  | cons t rest ih => exact List.Subset.trans (c.keeps_register t) (ih (c.register t))

theorem Filed.lookup?_of_keeps (filed : c.Filed) (filed' : c'.Filed) (keeps : c.Keeps c')
    {descriptor : String} (found : c.lookup? descriptor = some t) :
    c'.lookup? descriptor = some t := by
  obtain ⟨member, same⟩ := filed.lookup?_eq_some_iff.1 found
  exact filed'.lookup?_eq_some_iff.2 ⟨keeps member, same⟩

theorem Filed.mem_of_mem_register (filed : c.Filed) (taken : c.Has t.descriptor)
    (h : u ∈ (c.register t).types) : u ∈ c.types := by
  rcases mem_types_register h with rfl | old
  · obtain ⟨v, member, same⟩ := taken
    rwa [← (filed.register u).eq_of_descriptor (c.keeps_register u member) h same]
  · exact old

theorem mem_basicTypes (k : Kind) : Ty.primitive k ∈ basicTypes :=
  List.mem_append_left _ (List.mem_map_of_mem (Kind.mem_all k))

namespace Coherent

theorem register (coherent : c.Coherent) (t : Ty) : (c.register t).Coherent where
  filed := coherent.filed.register t
  basic u member := c.keeps_register t (coherent.basic u member)
  unrestricted r member := by
    rcases mem_types_register member with rfl | old
    · -- the kind has the descriptor already
      have taken : c.Has (Ty.restricted r).descriptor :=
        ⟨_, coherent.basic _ (mem_basicTypes r.base), rfl⟩
      exact coherent.unrestricted r (coherent.filed.mem_of_mem_register taken member)
    · exact coherent.unrestricted r old
  operations op member := by
    obtain ⟨declaring, returns, params⟩ := coherent.operations op member
    have keeps := c.keeps_register t
    exact ⟨keeps declaring, keeps returns, fun u param => keeps (params u param)⟩

theorem registerAll (coherent : c.Coherent) (ts : List Ty) : (c.registerAll ts).Coherent := by
  induction ts generalizing c with
  | nil => exact coherent
  | cons t rest ih => exact ih (coherent.register t)

theorem lookup?_basic (coherent : c.Coherent) (basic : t ∈ basicTypes) :
    c.lookup? t.descriptor = some t :=
  coherent.filed.lookup?_eq_some_iff.2 ⟨coherent.basic t basic, rfl⟩

theorem registerLibrary (coherent : c.Coherent) :
    ∃ c', c.registerLibrary = .ok c' ∧ c'.Coherent ∧ c.Keeps c' := by
  have string : c.Has Library.string := ⟨.string, coherent.basic _ (by simp [basicTypes]), rfl⟩
  obtain ⟨t, _, _, found⟩ := (string.registerAll (Kind.all.map .boxed)).lookup
  refine ⟨_, registerLibrary_of_lookup found,
    ((coherent.registerAll _).register _).register _, fun u member => ?_⟩
  exact keeps_register _ _ (keeps_register _ _ (c.keeps_registerAll _ member))

theorem withIndexType (coherent : c.Coherent) (maxSize : Nat) : (c.withIndexType maxSize).Coherent :=
  ⟨coherent.filed, coherent.basic, coherent.unrestricted, coherent.operations⟩

theorem withOperations (coherent : c.Coherent) (allowOverflow allowDivideByZero : Bool) :
    (c.withOperations allowOverflow allowDivideByZero).Coherent where
  filed := coherent.filed
  basic := coherent.basic
  unrestricted := coherent.unrestricted
  operations op member := by
    obtain ⟨e, _, admitted⟩ := List.mem_filterMap.1 member
    exact mem_types_of_resolve? (Option.filter_eq_some_iff.1 admitted).1

theorem prepare (coherent : c.Coherent) (knobs : Knobs) :
    ∃ c', c.prepare knobs = .ok c' ∧ c'.Coherent ∧ c.Keeps c' := by
  obtain ⟨library, registered, coherent', keeps⟩ := coherent.registerLibrary
  unfold Catalog.prepare
  rw [registered]
  exact ⟨_, rfl, (coherent'.withIndexType _).withOperations _ _, keeps⟩

end Coherent

theorem coherent_fresh (epoch : Nat) : (fresh epoch).Coherent := by
  have known : ∀ t ∈ (fresh epoch).types, t ∈ basicTypes := fun t member =>
    (mem_types_registerAll member).resolve_right List.not_mem_nil
  have distinct : (basicTypes.map Ty.descriptor).Nodup := by decide
  refine ⟨Filed.registerAll List.Pairwise.nil _, fun t basic => ?_, fun r member => ?_,
    fun op none => by contradiction⟩
  · obtain ⟨u, member, same⟩ : (fresh epoch).Has t.descriptor := has_registerAll _ basic
    rwa [← List.inj_on_of_nodup_map distinct (known u member) basic same]
  · have listed : .restricted r ∈ sessionTypes :=
      List.mem_append_left _ (List.mem_append_left _ (known _ member))
    exact ne_restricted_of_mem_sessionTypes listed r rfl

theorem coherent_reset (c : Catalog) : c.reset.Coherent := coherent_fresh _

end Catalog

def CatalogEvent.resets : CatalogEvent → Bool
  | .reset | .generate _ _ => true
  | _ => false

namespace Catalog

variable {c : Catalog}

theorem after_generate (c : Catalog) (seed : UInt64) (config : Config) :
    c.after (.generate seed config) = c.reset.prepare config.knobs := by
  obtain ⟨p, c', done, _⟩ := generateWith_ok c seed config
  rw [prepare_of_generateWith done]
  exact congrArg (·.map Prod.snd) done

/-- A use keeps the catalog coherent, and unless it resets the catalog, all that is known. -/
theorem Coherent.after (coherent : c.Coherent) (event : CatalogEvent) :
    ∃ c', c.after event = .ok c' ∧ c'.Coherent ∧ (event.resets = false → c.Keeps c') := by
  cases event with
  | register t => exact ⟨_, rfl, coherent.register t, fun _ => c.keeps_register t⟩
  | registerLibrary =>
    obtain ⟨c', registered, coherent', keeps⟩ := coherent.registerLibrary
    exact ⟨c', registered, coherent', fun _ => keeps⟩
  | setIndexType maxSize => exact ⟨_, rfl, coherent.withIndexType maxSize, fun _ _ => id⟩
  | admitOperations allowOverflow allowDivideByZero =>
    exact ⟨_, rfl, coherent.withOperations _ _, fun _ _ => id⟩
  | prepare knobs =>
    obtain ⟨c', prepared, coherent', keeps⟩ := coherent.prepare knobs
    exact ⟨c', prepared, coherent', fun _ => keeps⟩
  | reset => exact ⟨_, rfl, c.coherent_reset, fun kept => Bool.noConfusion kept⟩
  | generate seed config =>
    obtain ⟨c', prepared, coherent', _⟩ := c.coherent_reset.prepare config.knobs
    exact ⟨c', (c.after_generate seed config).trans prepared, coherent',
      fun kept => Bool.noConfusion kept⟩

theorem Coherent.afterAll (coherent : c.Coherent) (history : List CatalogEvent) :
    ∃ c', c.afterAll history = .ok c' ∧ c'.Coherent ∧
      ((∀ event ∈ history, event.resets = false) → c.Keeps c') := by
  induction history generalizing c with
  | nil => exact ⟨c, rfl, coherent, fun _ _ => id⟩
  | cons event rest ih =>
    obtain ⟨c', first, coherent', keeps⟩ := coherent.after event
    obtain ⟨c'', others, coherent'', keeps'⟩ := ih coherent'
    refine ⟨c'', ?_, coherent'', fun kept => ?_⟩
    · rw [Catalog.afterAll, List.foldlM_cons, first]
      exact others
    · obtain ⟨here, later⟩ := List.forall_mem_cons.1 kept
      exact List.Subset.trans (keeps here) (keeps' later)

/-- What a type is registered as is what its descriptor is bound to from then on. -/
theorem Filed.lookup?_registered (filed : c.Filed) (t : Ty) :
    (c.register t).lookup? t.descriptor = some (c.registered t) := by
  obtain ⟨u, member, same⟩ := c.has_register t
  have found := (filed.register t).lookup?_eq_some_iff.2 ⟨member, same⟩
  rw [Catalog.registered, found]
  rfl

theorem Filed.registered_eq (filed : c.Filed) {t u : Ty}
    (bound : c.lookup? u.descriptor = some t) : c.registered u = t := by
  have found := filed.lookup?_of_keeps (filed.register u) (c.keeps_register u) bound
  rw [Catalog.registered, found]
  rfl

/-- Whatever a catalog was used for: a descriptor is bound to at most one type, which has that
descriptor; the basic types stand for themselves, and no restricted type is catalogued; admitted
operations have catalogued types; the library can be registered and a session prepared. Until it is
reset, what is bound stays bound, and all types of one descriptor are registered as the same type. -/
theorem coherent_after_history (history : List CatalogEvent) :
    ∃ c, Catalog.new.afterAll history = .ok c ∧
      (c.types.map Ty.descriptor).Nodup ∧
      (∀ descriptor t, c.lookup? descriptor = some t ↔ t ∈ c.types ∧ t.descriptor = descriptor) ∧
      (∀ t ∈ Kind.all.map .primitive ++ [.void, .object, .string, .date],
        c.lookup? t.descriptor = some t) ∧
      (∀ r, .restricted r ∉ c.types) ∧
      (∀ op ∈ c.operations,
        op.declaring ∈ c.types ∧ op.returns ∈ c.types ∧ ∀ t ∈ op.params, t ∈ c.types) ∧
      (∃ c', c.registerLibrary = .ok c') ∧
      (∀ knobs, ∃ c', c.prepare knobs = .ok c') ∧
      ∀ later, (∀ event ∈ later, event.resets = false) →
        (∃ c', c.afterAll later = .ok c' ∧
          ∀ descriptor t, c.lookup? descriptor = some t → c'.lookup? descriptor = some t) ∧
        ∀ t, ∃ c', (c.register t).afterAll later = .ok c' ∧
          ∀ u, u.descriptor = t.descriptor → c'.registered u = c.registered t := by
  obtain ⟨c, used, coherent, _⟩ := (coherent_fresh 0).afterAll history
  refine ⟨c, used, List.Pairwise.imp (fun less => ne_of_lt less) coherent.filed,
    fun descriptor t => coherent.filed.lookup?_eq_some_iff, fun t listed => ?_, coherent.unrestricted,
    coherent.operations, ?_, fun knobs => ?_, fun later kept => ⟨?_, fun t => ?_⟩⟩
  · refine coherent.lookup?_basic ?_
    simpa [basicTypes, or_comm, or_left_comm, or_assoc] using listed
  · obtain ⟨c', registered, _⟩ := coherent.registerLibrary
    exact ⟨c', registered⟩
  · obtain ⟨c', prepared, _⟩ := coherent.prepare knobs
    exact ⟨c', prepared⟩
  · obtain ⟨c', done, coherent', keeps⟩ := coherent.afterAll later
    exact ⟨c', done, fun _ _ => coherent.filed.lookup?_of_keeps coherent'.filed (keeps kept)⟩
  · obtain ⟨c', done, coherent', keeps⟩ := (coherent.register t).afterAll later
    refine ⟨c', done, fun u same => coherent'.filed.registered_eq ?_⟩
    rw [same]
    exact (coherent.filed.register t).lookup?_of_keeps coherent'.filed (keeps kept)
      (coherent.filed.lookup?_registered t)

end Catalog
end JavaSmith
