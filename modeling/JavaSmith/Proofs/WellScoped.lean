import JavaSmith.Proofs.Locals
import JavaSmith.Proofs.Naming
import JavaSmith.Proofs.Recursion
import JavaSmith.Proofs.RunScopes

/-! Generated classes are well scoped: what is used is declared where it is used, every local and every
field is declared once, static code keeps to static members, and no two names are the same. -/
namespace JavaSmith

open Generator

namespace Program

def names (p : Program) : List String :=
  (List.range p.declared.fields.size).map (fun id => (Var.field id).name) ++
  (List.range p.declared.locals.size).map (fun id => (Var.localVar id).name) ++
  p.declared.methods.toList.map Method.name

def introductions (p : Program) : List (LocalId × Bool) :=
  p.methodsInOrder.flatMap MethodDeclaration.introduces

/-- Whatever is used in the class is declared, once and where it can be seen. -/
structure WellScoped (p : Program) : Prop where
  /-- Every local is introduced once: as a parameter, by a declaration or as the counter of a loop. -/
  locals : (p.introductions.map Prod.fst).Perm (List.range p.declared.locals.size)
  counters : ∀ l isCounter, (l, isCounter) ∈ p.introductions →
    (p.declared.localVar l).isCounter = isCounter
  bodies : ∀ m ∈ p.methodsInOrder,
    p.BlockScoped (p.declared.method m.method).isStatic m.params m.body
  fields : p.fields.toList.map FieldDeclaration.field = List.range p.declared.fields.size
  initializers : ∀ f ∈ p.fields.toList, p.UsesOnly (p.declared.Precedes f.field) f.initializer
  staticCalls : ∀ m ∈ p.methodsInOrder, (p.declared.method m.method).isStatic = true →
    ∀ s ∈ visitBlock m.body, ∀ e ∈ s.roots, ∀ k, p.Invokes e k →
      (p.declared.method k).isStatic = true
  names : p.names.Nodup

variable {p : Program}

theorem nodup_names (orderly : p.declared.Orderly) : p.names.Nodup := by
  have methods : p.declared.methods.toList.map Method.name =
      (List.range p.declared.methods.size).map methodName := by
    refine List.ext_getElem (by simp) fun m inside _ => ?_
    have known : m < p.declared.methods.size := by simpa using inside
    have name := orderly.names m known
    simpa [Declarations.method, known] using name
  have injective {letter : Char} : Function.Injective fun id => numbered letter (id + 1) :=
    fun id id' same => Nat.succ.inj (numbered_inj.1 same).2
  unfold names
  simp only [methods, Var.name_field, Var.name_localVar]
  rw [List.nodup_append', List.nodup_append']
  refine ⟨⟨List.nodup_range.map injective, List.nodup_range.map injective, ?_⟩,
    List.nodup_range.map methodName_injective, ?_⟩
  · rw [List.disjoint_left]
    rintro _ field other
    obtain ⟨id, _, rfl⟩ := List.mem_map.1 field
    obtain ⟨id', _, same⟩ := List.mem_map.1 other
    exact absurd (numbered_inj.1 same).1 (by decide)
  · rw [List.disjoint_left]
    intro name before method
    obtain ⟨m, _, rfl⟩ := List.mem_map.1 method
    rcases List.mem_append.1 before with field | other
    · obtain ⟨id, _, same⟩ := List.mem_map.1 field
      exact methodName_ne_numbered (by decide) (by decide) _ _ same
    · obtain ⟨id, _, same⟩ := List.mem_map.1 other
      exact methodName_ne_numbered (by decide) (by decide) _ _ same

end Program

open Program

theorem Declarations.orderly_new : (Declarations.empty.addEntry).Orderly where
  sizes := rfl
  count := rfl
  names m inside := by
    obtain rfl : m = 0 := Nat.lt_one_iff.1 inside
    rfl
  static a b call := by
    have old : CallGraph.empty.Calls a b := CallGraph.calls_addMethod CallGraph.empty ▸ call
    exact absurd (CallGraph.lt_size_of_calls old) (Nat.not_lt_zero a)

theorem Program.lexical_new (className : String) (seed : UInt64) (knobs : Knobs) :
    (new className seed knobs).Lexical where
  fields := rfl
  initializers f none := by contradiction
  bodies m none := by contradiction

namespace Generated

variable {c : Catalog} {p : Program} {seed : UInt64} {config : Config}

theorem orderly (generated : Generated c seed config p) : p.declared.Orderly := by
  obtain ⟨length, body, q, _, run, rfl⟩ := generated.run
  exact (run.orderly Declarations.orderly_new).setCost _ _

theorem introductions_perm (generated : Generated c seed config p) :
    p.introductions.Perm p.ledger := by
  obtain ⟨length, body, q, _, run, rfl⟩ := generated.run
  have entry : (q.closeEntry body).introductions = q.introduced ++ Block.introduces body := by
    rw [introductions, methodsInOrder_closeEntry run.extends, List.flatMap_append,
      List.flatMap_singleton]
    rfl
  have empty : (Program.new config.className seed config.knobs).ledger = [] := rfl
  have same : (q.closeEntry body).ledger = q.ledger := rfl
  refine List.perm_iff_count.2 fun x => ?_
  have balanced := run.accounts x
  have none : (Program.new config.className seed config.knobs).introduced = [] := rfl
  rw [none, empty, List.count_nil, Nat.zero_add, Nat.add_zero] at balanced
  rw [entry, same, List.count_append]
  exact balanced

theorem lexical (generated : Generated c seed config p) : p.Lexical := by
  obtain ⟨length, body, q, _, run, rfl⟩ := generated.run
  exact (run.lexical (lexical_new ..)).1.of_extends (q.extends_closeEntry body) rfl rfl rfl

theorem blockScoped (generated : Generated c seed config p) : ∀ m ∈ p.methodsInOrder,
    p.BlockScoped (p.declared.method m.method).isStatic m.params m.body := by
  have lexical := generated.lexical
  obtain ⟨length, body, q, _, run, rfl⟩ := generated.run
  have h := run.extends.trans (q.extends_closeEntry body)
  rw [methodsInOrder_closeEntry run.extends]
  intro m member
  rcases List.mem_append.1 member with complete | last
  · exact (lexical.bodies m complete).2
  · have known : entryId < (Program.new config.className seed config.knobs).declared.methods.size :=
      Nat.zero_lt_one
    rw [List.mem_singleton.1 last, h.isStatic known]
    exact BlockScoped.later (run.lexical (lexical_new ..)).2 (q.extends_closeEntry body) (.refl _)

theorem wellScoped (generated : Generated c seed config p) : p.WellScoped where
  locals := by
    have perm := generated.introductions_perm.map Prod.fst
    rwa [ledger, List.map_map, List.map_id''] at perm
    exact fun l => rfl
  counters l isCounter member := by
    obtain ⟨l', _, same⟩ := List.mem_map.1 (generated.introductions_perm.mem_iff.1 member)
    cases same
    rfl
  bodies := generated.blockScoped
  fields := generated.lexical.fields
  initializers := generated.lexical.initializers
  staticCalls m member static s visited e root k invokes :=
    generated.orderly.static _ _
      (generated.nonRecursive.recorded m member s visited e root k invokes) static
  names := nodup_names generated.orderly

end Generated

/-- Generated classes are well scoped. -/
theorem generated_wellScoped (catalog : Catalog) (seed : UInt64) (config : Config) :
    ∃ p c, generateWith catalog seed config = .ok (p, c) ∧ p.WellScoped := by
  obtain ⟨p, c, done, generated⟩ := generateWith_ok catalog seed config
  exact ⟨p, c, done, generated.wellScoped⟩

end JavaSmith
