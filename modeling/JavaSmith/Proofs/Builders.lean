import JavaSmith.Proofs.Assignability
import JavaSmith.Proofs.Generators.Arguments

/-! Builders in a session. Of the builders on offer for a type each succeeds on the arguments it asks for,
whatever is drawn, and on no others; what it makes can be used where the type is wanted. A builder that
refuses its arguments leaves no trace, not even in the random stream. -/
namespace JavaSmith

def Knobs.restrictedTypes (knobs : Knobs) : List Ty :=
  [.arraySize (knobs.get .maxArrayDimensionSize), .loopBound (knobs.get .maxLoopIterations),
    .nonzeroInt]

namespace Ty

theorem Formed.of_valid (base : Kind) (o : Outline) (valid : (⟨base, o.domain⟩ : Restriction).Valid) :
    Formed (.restricted ⟨base, o.domain⟩) := by
  have made : restrictedTo? base o.domain = some (.restricted ⟨base, o.domain⟩) := by
    rw [restrictedTo?, (Restriction.of?_eq_some_iff o.ordered_domain).2 ⟨rfl, valid⟩]
    rfl
  exact .restricted made

theorem Formed.of_interval (lo hi : Nat) (below : hi ≤ 2147483647)
    (valid : (⟨.int, .range lo hi⟩ : Restriction).Valid) :
    Formed (.restricted ⟨.int, .range lo hi⟩) := by
  -- The ends are within 64 bits, so the interval is the one between these words.
  obtain ⟨n, held⟩ := valid.inhabited
  have ordered := Domain.holds_range.1 held
  have low : (Int64.ofNat lo).toInt = lo := Int64.toInt_ofNat_of_lt (by omega)
  have high : (Int64.ofNat hi).toInt = hi := Int64.toInt_ofNat_of_lt (by omega)
  have same : (Outline.between (.ofNat lo) (.ofNat hi)).domain = .range lo hi := by
    rw [Outline.domain, low, high]
  rw [← same] at valid ⊢
  exact .of_valid _ _ valid

theorem formed_of_mem_restrictedTypes {knobs : Knobs} {t : Ty} (h : t ∈ knobs.restrictedTypes) :
    t.Formed := by
  have size : knobs.get .maxArrayDimensionSize ≤ 32 := (knobs.inRange .maxArrayDimensionSize).2
  have iterations : knobs.get .maxLoopIterations ≤ 1000 := (knobs.inRange .maxLoopIterations).2
  simp only [Knobs.restrictedTypes, List.mem_cons, List.not_mem_nil, or_false] at h
  rcases h with rfl | rfl | rfl
  · exact .of_interval 0 _ (by omega) (valued_arraySize (by omega))
  · exact .of_interval 1 _ (by omega) (valued_loopBound (by omega))
  · exact .of_valid _ (.listed [-9, 2, 10, 12, 100]) valued_nonzeroInt

end Ty

theorem Catalog.indexType_of_prepare {c prepared : Catalog} {knobs : Knobs}
    (h : c.prepare knobs = .ok prepared) :
    prepared.indexType = .arraySize (knobs.get .maxArrayDimensionSize) := by
  unfold prepare at h
  cases library : c.registerLibrary with
  | error fault =>
    rw [library] at h
    contradiction
  | ok known =>
    rw [library] at h
    cases h
    rfl

namespace Builder

variable {p : Program} {b : Builder} {args : List ExprId}

theorem accepts_iff {ts : List Ty} {es : List ExprId} :
    p.Accepts ts es ↔ List.Forall₂ (fun t e => t.accepts (p.typeOf e) = true) ts es :=
  ⟨.imp fun _ _ => And.right, .imp fun _ _ accepted => ⟨Program.lt_size_of_accepts accepted, accepted⟩⟩

/-- Arguments are looked at before anything is drawn or made. -/
theorem build_of_refused (h : ¬p.Accepts b.parameters args) (stream : Random.Stream) :
    ∃ fault, b.build args ⟨p, stream⟩ = .error fault ⟨p, stream⟩ := by
  obtain ⟨breach, refused⟩ := Option.ne_none_iff_exists'.1 (mt refusal?_eq_none_iff.1 h)
  have viewed : Gen.view (fun p => b.refusal? p args) ⟨p, stream⟩ = .ok (some breach) ⟨p, stream⟩ :=
    congrArg (EStateM.Result.ok · (⟨p, stream⟩ : Draft)) refused
  refine ⟨.breach breach, ?_⟩
  rw [build]
  change EStateM.bind (Gen.view fun p => b.refusal? p args) _ ⟨p, stream⟩ = _
  rw [EStateM.bind, viewed]
  rfl

/-- In a session every builder on offer for a type succeeds exactly on arguments of the types it asks
for, one for each, whatever is drawn. Then a single node is added to the class, with the type of what the
builder makes, which is accepted where the type is wanted; otherwise neither the class nor the random
stream has changed. The restricted types that the settings ask for are among the types meant. -/
theorem build_exact {c₀ c : Catalog} (prepared : c₀.prepare p.knobs = .ok c) {t : Ty}
    (formed : t.Formed) (offered : b ∈ c.allBuilders t) (args : List ExprId)
    (stream : Random.Stream) :
    ((∃ e s, b.build args ⟨p, stream⟩ = .ok e s) ↔
      List.Forall₂ (fun wanted arg => wanted.accepts (p.typeOf arg) = true) b.parameters args) ∧
    (∀ e s, b.build args ⟨p, stream⟩ = .ok e s →
      t.accepts b.result = true ∧ ∃ node, b.Makes args node ∧
        e = p.arena.size ∧ s.program = { p with arena := p.arena.push ⟨node, b.result⟩ }) ∧
    (∀ fault s, b.build args ⟨p, stream⟩ = .error fault s → s = ⟨p, stream⟩) ∧
    ∀ u ∈ p.knobs.restrictedTypes, u.Formed := by
  have index : c.indexType = p.indexType := Catalog.indexType_of_prepare prepared
  have serves := Catalog.serves_of_mem offered
  have known : ∀ u ∈ p.knobs.restrictedTypes, u.Formed := fun _ => Ty.formed_of_mem_restrictedTypes
  rw [← accepts_iff]
  by_cases given : p.Accepts b.parameters args
  · obtain ⟨e, s, done, node, makes, number, program⟩ :=
      ensures_build index formed.wellFormed serves given stream
    refine ⟨iff_of_true ⟨e, s, done⟩ given, fun e' s' done' => ?_, fun fault s' failed => ?_, known⟩
    · cases done.symm.trans done'
      exact ⟨serves.accepts_result formed.wellFormed, node, makes, number, program⟩
    · cases done.symm.trans failed
  · obtain ⟨fault, failed⟩ := build_of_refused given stream
    refine ⟨iff_of_false ?_ given, fun e s done => ?_, fun fault' s failed' => ?_, known⟩
    · rintro ⟨e, s, done⟩
      cases failed.symm.trans done
    · cases failed.symm.trans done
    · cases failed.symm.trans failed'
      rfl

/-- A matrix is made of two sizes, and not of one. -/
theorem matrix_built : ∃ c, Catalog.new.reset.prepare .default = .ok c ∧
    let p := ((Program.new "T" 0 .default).addConstant (.int 3) (.arraySize 4)).2
    let matrix : Builder := .newArray ((Ty.primitive .int).arrayOf 2) c.indexType
    (∃ e s, matrix.build [0, 0] ⟨p, Random.Stream.ofSeed 0⟩ = .ok e s) ∧
      ¬∃ e s, matrix.build [0] ⟨p, Random.Stream.ofSeed 0⟩ = .ok e s := by
  obtain ⟨c, prepared, _⟩ := Catalog.prepare_reset Catalog.new .default
  refine ⟨c, prepared, ?_⟩
  intro p matrix
  have formed : ((Ty.primitive .int).arrayOf 2).Formed := .arrayOf 2 (.primitive .int)
  have offered : matrix ∈ c.allBuilders ((Ty.primitive .int).arrayOf 2) :=
    List.mem_append_left _ (List.mem_append_right _ (List.mem_singleton.2 rfl))
  have parameters : matrix.parameters = [.arraySize 4, .arraySize 4] := by
    have index : c.indexType = .arraySize 4 := Catalog.indexType_of_prepare prepared
    change List.replicate 2 c.indexType = _
    rw [index]
    rfl
  have accepted : (Ty.arraySize 4).accepts (p.typeOf 0) = true := by
    change (Ty.arraySize 4).accepts (.arraySize 4) = true
    simp only [Ty.arraySize, Ty.accepts]
    decide
  have two := (build_exact (p := p) prepared formed offered [0, 0] (Random.Stream.ofSeed 0)).1
  have one := (build_exact (p := p) prepared formed offered [0] (Random.Stream.ofSeed 0)).1
  rw [parameters] at two one
  exact ⟨two.2 (.cons accepted (.cons accepted .nil)), mt one.1 fun given => by cases given; contradiction⟩

end Builder
end JavaSmith
