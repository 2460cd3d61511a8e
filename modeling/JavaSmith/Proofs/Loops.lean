import JavaSmith.Proofs.Confinement
import JavaSmith.Proofs.WellScoped

/-! Every loop comes to its end within its bound. A loop has a counter of its own, which it alone steps;
its bound may change while the body runs, but stays at least one and at most what its type promises.
As `Program.loopFrame` writes them, the three kinds of loop differ in where they start and in whether
the counter is stepped before the body or behind it; all of them run at least once. -/
namespace JavaSmith

/-- What a loop does next: it tests the counter, steps it or runs the body. -/
inductive LoopPoint where
  | test
  | step
  | body

namespace LoopKind

def first : LoopKind → LoopPoint
  | forLoop | whileLoop => .test
  | doWhileLoop => .step

def entered : LoopKind → LoopPoint
  | forLoop => .body
  | whileLoop | doWhileLoop => .step

def afterStep : LoopKind → LoopPoint
  | forLoop => .test
  | whileLoop | doWhileLoop => .body

def afterBody : LoopKind → LoopPoint
  | forLoop => .step
  | whileLoop | doWhileLoop => .test

/-- `kind.Ends bounds point counter tests n` says that from the point on, with the counter at its value
and so many tests made, the loop comes to its end after `n` more runs of the body. Each test compares
the counter with the value that the bound has at that time. -/
inductive Ends (kind : LoopKind) (bounds : Nat → Int) : LoopPoint → Int32 → Nat → Nat → Prop where
  | enter {counter : Int32} {tests n : Nat} : counter.toInt < bounds tests →
      Ends kind bounds kind.entered counter (tests + 1) n → Ends kind bounds .test counter tests n
  | leave {counter : Int32} {tests : Nat} : bounds tests ≤ counter.toInt →
      Ends kind bounds .test counter tests 0
  | step {counter : Int32} {tests n : Nat} :
      Ends kind bounds kind.afterStep (counter + 1) tests n → Ends kind bounds .step counter tests n
  | body {counter : Int32} {tests n : Nat} :
      Ends kind bounds kind.afterBody counter tests n →
      Ends kind bounds .body counter tests (n + 1)

section

variable {kind : LoopKind} {bounds : Nat → Int} {point : LoopPoint} {counter : Int32}
  {tests n n' : Nat}

theorem Ends.unique (ends : kind.Ends bounds point counter tests n)
    (ends' : kind.Ends bounds point counter tests n') : n' = n := by
  induction ends generalizing n' with
  | enter below _ ih =>
    cases ends' with
    | enter _ rest => exact ih rest
    | leave above => omega
  | leave above =>
    cases ends' with
    | enter below => omega
    | leave => rfl
  | step _ ih =>
    cases ends' with
    | step rest => exact ih rest
  | body _ ih =>
    cases ends' with
    | body rest => rw [ih rest]

theorem Ends.round (rest : kind.Ends bounds .test (counter + 1) tests n) :
    kind.Ends bounds kind.entered counter tests (n + 1) := by
  cases kind with
  | forLoop => exact .body (.step rest)
  | whileLoop | doWhileLoop => exact .step (.body rest)

theorem toInt_step {k limit : Nat} (value : counter.toInt = k) (below : k < limit)
    (small : limit ≤ 2147483647) : (counter + 1).toInt = (k + 1 : Nat) := by
  -- the limit is an `int`, so the counter does not wrap around below it
  rw [Int32.toInt_add, value, Int32.toInt_one, Int.bmod_eq_of_le (by omega) (by omega)]
  rfl

end

section

variable {kind : LoopKind} {bounds : Nat → Int} {limit : Nat}

theorem exists_ends_test (small : limit ≤ 2147483647)
    (within : ∀ i, 1 ≤ bounds i ∧ bounds i ≤ limit) {counter : Int32} {k : Nat}
    (value : counter.toInt = k) (reached : k ≤ limit) (tests : Nat) :
    ∃ n, kind.Ends bounds .test counter tests n ∧ n ≤ limit - k ∧ (k = 0 → 1 ≤ n) := by
  obtain ⟨least, greatest⟩ := within tests
  by_cases below : counter.toInt < bounds tests
  · have room : k < limit := by omega
    obtain ⟨n, ends, few, _⟩ := exists_ends_test small within (toInt_step value room small) room
      (tests + 1)
    exact ⟨n + 1, .enter below ends.round, by omega, by omega⟩
  -- the bound may have fallen since the last test, so the counter need not have come to the limit
  · exact ⟨0, .leave (by omega), by omega, by omega⟩
termination_by limit - k

/-- A loop whose bound keeps between one and the limit runs its body at least once, and at most as
often as the limit says. -/
theorem exists_ends (kind : LoopKind) (small : limit ≤ 2147483647)
    (within : ∀ i, 1 ≤ bounds i ∧ bounds i ≤ limit) :
    ∃ n, kind.Ends bounds kind.first 0 0 n ∧ 1 ≤ n ∧ n ≤ limit := by
  have positive : 0 < limit := by
    have := within 0
    omega
  have start : (0 : Int32).toInt = (0 : Nat) := rfl
  cases kind with
  | forLoop | whileLoop =>
    obtain ⟨n, ends, few, some⟩ := exists_ends_test small within start (Nat.zero_le _) 0
    exact ⟨n, ends, some rfl, few⟩
  | doWhileLoop =>
    obtain ⟨n, ends, few, _⟩ :=
      exists_ends_test small within (toInt_step start positive small) positive 0
    exact ⟨n + 1, ends.round, by omega, by omega⟩

end
end LoopKind

def Statement.counter? : Statement → Option LocalId
  | .loop _ counter _ _ => some counter
  | _ => none

namespace Program

def counters (p : Program) : List LocalId := p.statements.filterMap Statement.counter?

/-- Every loop of the class comes to its end: nothing but the loop steps its counter, and the counter
reaches the bound whatever is written to it meanwhile. -/
structure LoopsEnd (p : Program) : Prop where
  distinct : p.counters.Nodup
  parameters : ∀ l ∈ p.counters, ∀ m ∈ p.methodsInOrder, l ∉ m.params
  declarations : ∀ l ∈ p.counters, ∀ e, .declare l e ∉ p.statements
  assignments : ∀ l ∈ p.counters, ∀ e source, p.node e ≠ .assign (.localVar l) source
  leaves : ∀ kind counter bound body, .loop kind counter bound body ∈ p.statements →
    (∃ v, p.node bound = .constant v) ∨ ∃ v, p.node bound = .read v
  bounds : ∀ kind counter bound body, .loop kind counter bound body ∈ p.statements →
    p.Within (.range 1 (p.knobs.get .maxLoopIterations)) bound
  /-- Whichever values of its domain the bound takes, they determine how often the body runs. -/
  ends : ∀ kind counter bound body r bounds, .loop kind counter bound body ∈ p.statements →
    p.typeOf bound = .restricted r → (∀ i, r.domain.holds (bounds i) = true) →
    ∃ n, (∀ n', kind.Ends bounds kind.first 0 0 n' ↔ n' = n) ∧ 1 ≤ n ∧ n ≤ p.iterationBound bound

variable {p : Program}

theorem filter_introductions (p : Program) :
    p.introductions.filter Prod.snd = p.counters.map (·, true) := by
  have statement (s : Statement) :
      s.introduces.filter Prod.snd = s.counter?.toList.map (·, true) := by
    cases s <;> rfl
  have method (m : MethodDeclaration) : m.introduces.filter Prod.snd =
      ((visitBlock m.body).filterMap Statement.counter?).map (·, true) := by
    -- neither parameters nor declared locals are counters, so only the loops are left
    have params : (m.params.map (·, false)).filter Prod.snd = [] := by simp
    rw [MethodDeclaration.introduces, Block.introduces, List.filter_append, params, List.nil_append,
      List.filter_flatMap, List.filterMap_eq_flatMap_toList, List.map_flatMap]
    exact List.flatMap_congr fun s _ => statement s
  rw [introductions, counters, statements, List.filter_flatMap, List.filterMap_flatMap,
    List.map_flatMap]
  exact List.flatMap_congr fun m _ => method m

mutual

theorem StatementWithin.boundsLoop {budget : Nat} {s : Statement} (within : p.StatementWithin budget s)
    {kind : LoopKind} {counter : LocalId} {bound : ExprId} {body : Block}
    (visited : .loop kind counter bound body ∈ s.visit) : p.BoundsLoop bound := by
  cases s with
  | expression e | declare l e | print e | returnValue e | returnVoid =>
    simp [Statement.visit] at visited
  | ifThen condition inner =>
    rw [StatementWithin] at within
    simp only [Statement.visit, List.mem_cons, reduceCtorEq, false_or] at visited
    exact within.2.boundsLoop visited
  | ifElse condition inner otherwise =>
    rw [StatementWithin] at within
    simp only [Statement.visit, List.mem_cons, reduceCtorEq, false_or, List.mem_append] at visited
    exact visited.elim within.2.1.boundsLoop within.2.2.boundsLoop
  | loop kind' counter' bound' inner =>
    rw [StatementWithin] at within
    rw [Statement.visit] at visited
    rcases List.mem_cons.1 visited with same | nested
    · cases same
      exact within.1
    · exact within.2.2.boundsLoop nested

theorem BlockWithin.boundsLoop {budget : Nat} {b : Block} (within : p.BlockWithin budget b)
    {kind : LoopKind} {counter : LocalId} {bound : ExprId} {body : Block}
    (visited : .loop kind counter bound body ∈ visitBlock b) : p.BoundsLoop bound := by
  cases b with
  | nil => contradiction
  | cons s rest =>
    rw [BlockWithin] at within
    rw [visitBlock] at visited
    exact (List.mem_append.1 visited).elim within.1.boundsLoop within.2.boundsLoop

end

namespace WellScoped

variable {l : LocalId}

theorem nodup_counters (scopes : p.WellScoped) : p.counters.Nodup := by
  have nodup : p.introductions.Nodup :=
    .of_map Prod.fst (scopes.locals.nodup_iff.2 List.nodup_range)
  have counters := nodup.filter Prod.snd
  rw [p.filter_introductions] at counters
  exact .of_map _ counters

theorem isCounter (scopes : p.WellScoped) (counter : l ∈ p.counters) :
    (p.declared.localVar l).isCounter = true := by
  refine scopes.counters l true ?_
  have marked : (l, true) ∈ p.introductions.filter Prod.snd :=
    p.filter_introductions ▸ List.mem_map_of_mem counter
  exact List.mem_of_mem_filter marked

theorem not_mem_counters (scopes : p.WellScoped) {m : MethodDeclaration}
    (declared : m ∈ p.methodsInOrder) (introduced : (l, false) ∈ m.introduces) :
    l ∉ p.counters := by
  intro counter
  have plain := scopes.counters l false (List.mem_flatMap_of_mem declared introduced)
  rw [scopes.isCounter counter] at plain
  contradiction

end WellScoped

/-- The counter reaches the bound, whichever values of its domain the bound takes. -/
theorem Sound.exists_ends {c : Catalog} (sound : p.Sound c) {bound : ExprId} {r : Restriction}
    (within : p.Within (.range 1 (p.knobs.get .maxLoopIterations)) bound)
    (type : p.typeOf bound = .restricted r) {bounds : Nat → Int}
    (held : ∀ i, r.domain.holds (bounds i) = true) (kind : LoopKind) :
    ∃ n, kind.Ends bounds kind.first 0 0 n ∧ 1 ≤ n ∧ n ≤ p.iterationBound bound := by
  obtain ⟨r', type', contained⟩ := within
  cases type.symm.trans type'
  obtain ⟨least, greatest, _, last⟩ := Domain.exists_ends (held 0)
  have few : p.knobs.get .maxLoopIterations ≤ 1000 := (p.knobs.inRange .maxLoopIterations).2
  have range {n : Int} (held : r.domain.holds n = true) :=
    Domain.holds_range.1 (Domain.holds_of_contains contained held)
  have top := range (Domain.holds_of_max? last)
  rw [iterationBound_of_max? type last]
  refine kind.exists_ends (by omega) fun i => ⟨(range (held i)).1, ?_⟩
  have := Domain.le_max? (sound.valid type).ordered last (held i)
  omega

end Program

namespace Generated

variable {c : Catalog} {p : Program} {seed : UInt64} {config : Config}

theorem boundsLoop (generated : Generated c seed config p) {kind : LoopKind} {counter : LocalId}
    {bound : ExprId} {body : Block} (member : .loop kind counter bound body ∈ p.statements) :
    p.BoundsLoop bound := by
  obtain ⟨m, declared, visited⟩ := List.mem_flatMap.1 member
  exact (generated.costed m declared).within.boundsLoop visited

theorem loopsEnd (generated : Generated c seed config p) : p.LoopsEnd where
  distinct := generated.wellScoped.nodup_counters
  parameters l counter m declared param :=
    generated.wellScoped.not_mem_counters declared
      (List.mem_append_left _ (List.mem_map_of_mem param)) counter
  declarations l counter e member := by
    obtain ⟨m, declared, visited⟩ := List.mem_flatMap.1 member
    refine generated.wellScoped.not_mem_counters declared ?_ counter
    exact List.mem_append_right _ (List.mem_flatMap_of_mem visited (List.mem_singleton_self _))
  assignments l counter e source same := by
    have typed := generated.sound.typed_of_node same (by simp)
    generalize p.typeOf e = t at typed
    cases typed with
    | assign _ writable =>
      rw [Declarations.isReadOnly, generated.wellScoped.isCounter counter] at writable
      contradiction
  leaves _ _ _ _ member := (generated.boundsLoop member).leaf
  bounds _ _ _ _ := generated.within_of_loop
  ends kind _ _ _ _ _ member type held := by
    obtain ⟨n, ends, some, few⟩ :=
      generated.sound.exists_ends (generated.within_of_loop member) type held kind
    exact ⟨n, fun n' => ⟨ends.unique, fun same => same ▸ ends⟩, some, few⟩

end Generated

/-- All loops of a generated class come to their ends within their bounds. -/
theorem generated_loopsEnd (catalog : Catalog) (seed : UInt64) (config : Config) :
    ∃ p c, generateWith catalog seed config = .ok (p, c) ∧ p.LoopsEnd := by
  obtain ⟨p, c, done, generated⟩ := generateWith_ok catalog seed config
  exact ⟨p, c, done, generated.loopsEnd⟩

end JavaSmith
