import JavaSmith.Scope
import JavaSmith.Proofs.Draws

/-! What is picked among the declared variables and methods, and that nothing is picked only where
there is nothing to pick. The coins that decide where to look first do not matter for either. -/
namespace JavaSmith

open JavaSmith.Random

namespace Scope

inductive Sees (s : Scope) (d : Declarations) (isStatic : Bool) : Var → Prop where
  | localVar {l : LocalId} : l ∈ s.visible → Sees s d isStatic (.localVar l)
  | field {id : FieldId} : id ∈ visibleFields d isStatic → Sees s d isStatic (.field id)

/-- A variable that may be picked: seen, and never null where null is forbidden. -/
structure Offers (s : Scope) (d : Declarations) (ctx : Context) (v : Var) : Prop where
  seen : s.Sees d ctx.isStatic v
  nonnull : ctx.forbidsNull = true → (d.typeOf v).isNullable = false

theorem mem_visible {s : Scope} {l : LocalId} : l ∈ s.visible ↔ l ∈ s.blocks.flatten := by
  simp [visible]

theorem mem_visibleFields {d : Declarations} {isStatic : Bool} {id : FieldId} :
    id ∈ visibleFields d isStatic ↔
      id < d.fields.size ∧ (isStatic = true → (d.field id).modifiers.isStatic = true) := by
  unfold visibleFields
  rw [List.mem_filter, List.mem_range]
  cases isStatic <;> simp

theorem always_drawLocal (accept : LocalId → Bool) (kept : Option LocalId)
    (blocks : List (List LocalId)) :
    Always (drawLocal accept kept blocks) fun o =>
      (∀ l, o = some l → l ∈ blocks.flatten ∧ accept l = true ∨ kept = some l) ∧
      (o = none → kept = none ∧ ∀ l ∈ blocks.flatten, accept l = false) := by
  induction blocks generalizing kept with
  | nil => exact Always.pure ⟨fun l h => .inr h, fun h => ⟨h, by simp⟩⟩
  | cons block outer ih =>
    refine Always.bind (always_chooseOneByOne (block.filter accept)) ?_
    rintro (_ | first) ⟨chosen, missing⟩
    · have rejected : ∀ l ∈ block, accept l = false := by
        simpa using missing rfl
      refine (ih kept).mono fun o ⟨found, lost⟩ => ⟨fun l e => ?_, fun e => ⟨(lost e).1, ?_⟩⟩
      · rcases found l e with ⟨member, accepted⟩ | old
        · exact .inl ⟨by simp [member], accepted⟩
        · exact .inr old
      · intro l member
        rw [List.flatten_cons, List.mem_append] at member
        rcases member with here | further
        · exact rejected l here
        · exact (lost e).2 l further
    · obtain ⟨member, accepted⟩ := List.mem_filter.1 (chosen first rfl)
      have here : first ∈ (block :: outer).flatten ∧ accept first = true :=
        ⟨by simp [member], accepted⟩
      refine Always.bind (Always.trivial _) ?_
      rintro (_ | _) _
      · refine (ih (some first)).mono fun o ⟨found, lost⟩ => ⟨fun l e => ?_, fun e => ?_⟩
        · rcases found l e with ⟨member, accepted⟩ | kept
          · exact .inl ⟨by simp [member], accepted⟩
          · cases kept
            exact .inl here
        · exact absurd (lost e).1 (Option.some_ne_none _)
      · refine Always.pure ⟨fun l e => ?_, fun e => absurd e (Option.some_ne_none _)⟩
        cases e
        exact .inl here

theorem always_drawField (d : Declarations) (ctx : Context) (accept : Var → Bool) :
    Always (drawField d ctx accept) fun o =>
      (∀ v, o = some v → (∃ id ∈ visibleFields d ctx.isStatic, v = .field id) ∧ accept v = true) ∧
      (o = none → ∀ id ∈ visibleFields d ctx.isStatic, accept (.field id) = false) := by
  refine (always_chooseOneByOne _).mono fun o ⟨chosen, missing⟩ => ⟨fun v e => ?_, fun e => ?_⟩
  · obtain ⟨member, accepted⟩ := List.mem_filter.1 (chosen v e)
    obtain ⟨id, seen, rfl⟩ := List.mem_map.1 member
    exact ⟨⟨id, seen, rfl⟩, accepted⟩
  · simpa using missing e

section

variable {s : Scope} {d : Declarations} {ctx : Context} {taken accept : Var → Bool}

theorem taken_iff (d : Declarations) (ctx : Context) (accept : Var → Bool) (v : Var) :
    (!(ctx.forbidsNull && (d.typeOf v).isNullable) && accept v) = true ↔
      (ctx.forbidsNull = true → (d.typeOf v).isNullable = false) ∧ accept v = true := by
  cases ctx.forbidsNull <;> simp

theorem always_pickLocal
    (h : ∀ v, taken v = true ↔
      (ctx.forbidsNull = true → (d.typeOf v).isNullable = false) ∧ accept v = true) :
    Always (do
      let l ← drawLocal (fun l => taken (.localVar l)) none s.blocks
      return l.map Var.localVar) fun o =>
        (∀ v, o = some v → s.Offers d ctx v ∧ accept v = true) ∧
        (o = none → ∀ l ∈ s.visible, taken (.localVar l) = false) := by
  refine Always.bind (always_drawLocal _ _ _) fun o found => Always.pure ⟨fun v e => ?_, fun e => ?_⟩
  · obtain ⟨l, rfl, rfl⟩ := Option.map_eq_some_iff.1 e
    rcases found.1 l rfl with ⟨member, accepted⟩ | kept
    · obtain ⟨nonnull, accepted⟩ := (h _).1 accepted
      exact ⟨⟨.localVar (mem_visible.2 member), nonnull⟩, accepted⟩
    · contradiction
  · intro l member
    exact (found.2 (Option.map_eq_none_iff.1 e)).2 l (mem_visible.1 member)

theorem always_pickField
    (h : ∀ v, taken v = true ↔
      (ctx.forbidsNull = true → (d.typeOf v).isNullable = false) ∧ accept v = true) :
    Always (drawField d ctx taken) fun o =>
      (∀ v, o = some v → s.Offers d ctx v ∧ accept v = true) ∧
      (o = none → ∀ id ∈ visibleFields d ctx.isStatic, taken (.field id) = false) := by
  refine (always_drawField d ctx taken).mono fun o ⟨found, lost⟩ => ⟨fun v e => ?_, lost⟩
  obtain ⟨⟨id, member, rfl⟩, accepted⟩ := found v e
  obtain ⟨nonnull, accepted⟩ := (h _).1 accepted
  exact ⟨⟨.field member, nonnull⟩, accepted⟩

theorem Offers.not_accepted
    (h : ∀ v, taken v = true ↔
      (ctx.forbidsNull = true → (d.typeOf v).isNullable = false) ∧ accept v = true)
    (noLocal : ∀ l ∈ s.visible, taken (.localVar l) = false)
    (noField : ∀ id ∈ visibleFields d ctx.isStatic, taken (.field id) = false) {v : Var}
    (offered : s.Offers d ctx v) : accept v = false := by
  refine Bool.eq_false_iff.2 fun accepted => ?_
  have takes := (h v).2 ⟨offered.nonnull, accepted⟩
  cases offered.seen with
  | localVar member => exact Bool.false_ne_true ((noLocal _ member).symm.trans takes)
  | field member => exact Bool.false_ne_true ((noField _ member).symm.trans takes)

end

/-- A picked variable is one of those offered and is accepted, and there is one to pick unless none of
those offered is accepted. -/
theorem always_pick (s : Scope) (d : Declarations) (ctx : Context) (accept : Var → Bool) :
    Always (s.pick d ctx accept) fun o =>
      (∀ v, o = some v → s.Offers d ctx v ∧ accept v = true) ∧
      (o = none → ∀ v, s.Offers d ctx v → accept v = false) := by
  have h := taken_iff d ctx accept
  have locals := always_pickLocal (s := s) h
  have fields := always_pickField (s := s) h
  refine Always.bind (Always.trivial _) ?_
  rintro (_ | _) _
  · rw [if_neg Bool.false_ne_true]
    refine Always.mono (Always.firstOf (fun _ => rfl) locals fields) ?_
    rintro o ⟨found, lost⟩
    exact ⟨found, fun none v => Offers.not_accepted h (lost none).1 (lost none).2⟩
  · rw [if_pos rfl]
    refine Always.mono (Always.firstOf (fun _ => rfl) fields locals) ?_
    rintro o ⟨found, lost⟩
    exact ⟨found, fun none v => Offers.not_accepted h (lost none).2 (lost none).1⟩

theorem finds_pick (s : Scope) (d : Declarations) (ctx : Context) (accept : Var → Bool) :
    Finds (s.pick d ctx accept) fun v => s.Offers d ctx v ∧ accept v = true := by
  refine .of_always ((always_pick s d ctx accept).mono fun o ⟨found, lost⟩ => ⟨found, ?_⟩)
  rintro none v ⟨offered, accepted⟩
  rw [lost none v offered] at accepted
  contradiction

theorem finds_initializedOfType (s : Scope) (d : Declarations) (ctx : Context) (t : Ty) :
    Finds (s.initializedOfType d ctx t) fun v =>
      s.Offers d ctx v ∧ d.isInitialized v = true ∧ t.accepts (d.typeOf v) = true :=
  (finds_pick s d ctx _).congr fun v => by rw [Bool.and_eq_true]

theorem finds_writableOfType (s : Scope) (d : Declarations) (ctx : Context) (t : Ty) :
    Finds (s.writableOfType d ctx t) fun v =>
      s.Offers d ctx v ∧ d.isReadOnly v = false ∧ t.accepts (d.typeOf v) = true :=
  (finds_pick s d ctx _).congr fun v => by rw [Bool.and_eq_true, Bool.not_eq_true']

theorem finds_writable (s : Scope) (d : Declarations) (ctx : Context) :
    Finds (s.writable d ctx) fun v => s.Offers d ctx v ∧ d.isReadOnly v = false :=
  (finds_pick s d ctx _).congr fun v => by rw [Bool.not_eq_true']

theorem always_initializedOfType (s : Scope) (d : Declarations) (ctx : Context) (t : Ty) :
    Always (s.initializedOfType d ctx t) fun o => ∀ v, o = some v →
      s.Offers d ctx v ∧ d.isInitialized v = true ∧ t.accepts (d.typeOf v) = true :=
  Always.mono (finds_initializedOfType s d ctx t) fun _ => And.left

theorem always_writableOfType (s : Scope) (d : Declarations) (ctx : Context) (t : Ty) :
    Always (s.writableOfType d ctx t) fun o => ∀ v, o = some v →
      s.Offers d ctx v ∧ d.isReadOnly v = false ∧ t.accepts (d.typeOf v) = true :=
  Always.mono (finds_writableOfType s d ctx t) fun _ => And.left

theorem always_writable (s : Scope) (d : Declarations) (ctx : Context) :
    Always (s.writable d ctx) fun o => ∀ v, o = some v →
      s.Offers d ctx v ∧ d.isReadOnly v = false :=
  Always.mono (finds_writable s d ctx) fun _ => And.left

theorem sees_localVar {s : Scope} {d : Declarations} {isStatic : Bool} {l : LocalId} :
    s.Sees d isStatic (.localVar l) ↔ ∃ block ∈ s.blocks, l ∈ block := by
  rw [← List.mem_flatten, ← mem_visible]
  exact ⟨fun | .localVar member => member, .localVar⟩

theorem sees_field {s : Scope} {d : Declarations} {isStatic : Bool} {id : FieldId} :
    s.Sees d isStatic (.field id) ↔
      id < d.fields.size ∧ (isStatic = true → (d.field id).modifiers.isStatic = true) := by
  rw [← mem_visibleFields]
  exact ⟨fun | .field member => member, .field⟩

theorem offers_iff {s : Scope} {d : Declarations} {ctx : Context} {v : Var} :
    s.Offers d ctx v ↔ s.Sees d ctx.isStatic v ∧
      (ctx.forbidsNull = true → (d.typeOf v).isNullable = false) :=
  ⟨fun ⟨seen, nonnull⟩ => ⟨seen, nonnull⟩, fun ⟨seen, nonnull⟩ => ⟨seen, nonnull⟩⟩

/-- Locals are in sight from the open blocks, and fields unless the code is static and they are not.
Each of the three queries finds exactly the variables in sight that fit it, and where null is
forbidden those that never hold null: none is given that does not fit, and none is missed, wherever
the coins send the search first. -/
theorem queries_find (s : Scope) (d : Declarations) (ctx : Context) (t : Ty) :
    let InReach v :=
      s.Sees d ctx.isStatic v ∧ (ctx.forbidsNull = true → (d.typeOf v).isNullable = false)
    (∀ l, s.Sees d ctx.isStatic (.localVar l) ↔ ∃ block ∈ s.blocks, l ∈ block) ∧
    (∀ id, s.Sees d ctx.isStatic (.field id) ↔
      id < d.fields.size ∧ (ctx.isStatic = true → (d.field id).modifiers.isStatic = true)) ∧
    (Finds (s.initializedOfType d ctx t) fun v =>
      InReach v ∧ d.isInitialized v = true ∧ t.accepts (d.typeOf v) = true) ∧
    (Finds (s.writableOfType d ctx t) fun v =>
      InReach v ∧ d.isReadOnly v = false ∧ t.accepts (d.typeOf v) = true) ∧
    (Finds (s.writable d ctx) fun v => InReach v ∧ d.isReadOnly v = false) := by
  intro InReach
  have offered (v : Var) : s.Offers d ctx v ↔ InReach v := offers_iff
  refine ⟨fun _ => sees_localVar, fun _ => sees_field, ?_, ?_, ?_⟩
  · exact (finds_initializedOfType s d ctx t).congr fun v => and_congr_left' (offered v)
  · exact (finds_writableOfType s d ctx t).congr fun v => and_congr_left' (offered v)
  · exact (finds_writable s d ctx).congr fun v => and_congr_left' (offered v)

end Scope

namespace Declarations

theorem mem_userMethods {d : Declarations} {m : MethodId} :
    m ∈ d.userMethods ↔ m < d.methods.size ∧ (d.method m).isEntry = false := by
  simp [userMethods]

theorem mem_callable {d : Declarations} {caller m : MethodId} :
    m ∈ d.callable caller ↔
      m < d.methods.size ∧ (d.method m).isEntry = false ∧ m ≠ caller ∧
      m ∉ d.calls.excludedFor caller ∧
      ((d.method caller).isStatic = true → (d.method m).isStatic = true) := by
  unfold callable
  dsimp only
  rw [List.mem_filter, mem_userMethods]
  cases (d.method caller).isStatic <;> simp [and_assoc]

theorem always_randomCallable (d : Declarations) (caller : MethodId) (accepts : Method → Bool) :
    Always (d.randomCallable caller accepts) fun o =>
      (∀ m, o = some m → m ∈ d.callable caller ∧ accepts (d.method m) = true) ∧
      (o = none → ∀ m ∈ d.callable caller, accepts (d.method m) = false) := by
  refine Always.bind (shuffle_perm (d.callable caller)) fun candidates perm =>
    Always.pure ⟨fun m e => ?_, fun e m member => ?_⟩
  · exact ⟨perm.mem_iff.1 (List.mem_of_find?_eq_some e),
      List.find?_some (p := fun id => accepts (d.method id)) e⟩
  · have := List.find?_eq_none.1 e m (perm.mem_iff.2 member)
    simpa using this

end Declarations
end JavaSmith
