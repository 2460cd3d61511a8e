import JavaSmith.Proofs.Session

/-! Overloads of library operations. The text of a call names no parameter types, so the operation that is
called is the most specific of those that the arguments fit. That one always exists; where it is not
the operation the call was made for, it gives a value of the same type, but for three functions on
numbers that have one overload for each of several kinds. -/
namespace JavaSmith

namespace Operation

/-- The operation may be called on arguments of the types, the receiver first. -/
def Takes (op : Operation) (args : List Ty) : Prop :=
  List.Forall₂ (fun t u => t.accepts u = true) op.parameters args

theorem Takes.trans {op o : Operation} {args : List Ty} (h : op.Takes o.parameters)
    (h' : o.Takes args) : op.Takes args := by
  unfold Takes at h h' ⊢
  generalize op.parameters = ts at h ⊢
  generalize o.parameters = us at h h'
  induction h generalizing args with
  | nil => exact h'
  | cons accepted _ ih =>
    cases h' with
    | cons accepted' rest => exact .cons (Ty.accepts_trans accepted accepted') (ih rest)

end Operation

namespace Ty

def apart (t u : Ty) : Bool :=
  match t.kind?, u.kind? with
  | some k, some k' => Kind.all.all fun n => !(k.isWideningOf n && k'.isWideningOf n)
  | none, none => false
  | _, _ => true

theorem apart_eq_false {t u v : Ty} (h : t.accepts v = true) (h' : u.accepts v = true) :
    t.apart u = false := by
  unfold apart
  cases kind : t.kind? with
  | none =>
    have given := kind?_eq_none_of_accepts h kind
    cases kind' : u.kind? with
    | none => rfl
    | some k =>
      obtain ⟨n, given', _⟩ := kind_of_accepts h' kind'
      rw [given] at given'
      contradiction
  | some k =>
    obtain ⟨n, given, widens⟩ := kind_of_accepts h kind
    cases kind' : u.kind? with
    | none =>
      rw [kind?_eq_none_of_accepts h' kind'] at given
      contradiction
    | some k' =>
      obtain ⟨n', given', widens'⟩ := kind_of_accepts h' kind'
      obtain rfl : n = n' := Option.some.inj (given.symm.trans given')
      refine Bool.eq_false_iff.2 fun all => ?_
      have := List.all_eq_true.1 all n n.mem_all
      rw [widens, widens'] at this
      contradiction

def acceptsFlat : Ty → Ty → Bool
  | void, _ => false
  | primitive k, primitive k' => k.isWideningOf k'
  | object, t => t.isNullable
  | t, t' => t.isReference && t == t'

def isFlat : Ty → Bool
  | restricted _ | array _ _ => false
  | _ => true

theorem eq_primitive_of_same {t : Ty} {k : Kind} (h : t.same (.primitive k) = true) :
    t = .primitive k := by
  cases t with
  | primitive k' => simpa [same] using h
  | _ => contradiction

theorem accepts_eq_acceptsFlat {t u : Ty} (flat : t.isFlat = true) (flat' : u.isFlat = true) :
    t.accepts u = t.acceptsFlat u := by
  cases t <;> cases u <;>
    simp_all [accepts, acceptsFlat, isFlat, isReference, isNullable, BEq.beq, same]

end Ty

namespace Operation

def takesFlat (op : Operation) (args : List Ty) : Bool :=
  List.all₂ Ty.acceptsFlat op.parameters args

theorem takes_iff {op : Operation} {args : List Ty} (flat : ∀ t ∈ op.parameters, t.isFlat = true)
    (flat' : ∀ t ∈ args, t.isFlat = true) : op.Takes args ↔ op.takesFlat args = true := by
  unfold Takes takesFlat
  rw [List.all₂_eq_true]
  generalize op.parameters = ts at flat ⊢
  induction ts generalizing args with
  | nil => cases args <;> simp
  | cons t rest ih =>
    cases args with
    | nil => simp
    | cons u others =>
      rw [List.forall₂_cons, List.forall₂_cons, Ty.accepts_eq_acceptsFlat (flat t List.mem_cons_self)
        (flat' u List.mem_cons_self), ih (fun u member => flat' u (List.mem_cons_of_mem _ member))
        fun t member => flat t (List.mem_cons_of_mem _ member)]

def apart (op o : Operation) : Bool :=
  (op.parameters.zip o.parameters).any fun places => places.1.apart places.2

theorem apart_eq_false {op o : Operation} {args : List Ty} (h : op.Takes args)
    (h' : o.Takes args) : op.apart o = false := by
  unfold Takes at h h'
  unfold apart
  generalize op.parameters = ts at h ⊢
  generalize o.parameters = us at h' ⊢
  induction h generalizing us with
  | nil => rfl
  | cons accepted _ ih =>
    cases h' with
    | cons accepted' rest =>
      rw [List.zip_cons_cons, List.any_cons, Ty.apart_eq_false accepted accepted', Bool.false_or]
      exact ih _ rest

end Operation

def Library.Entry.rivals (e e' : Library.Entry) : Bool :=
  e.isStatic == e'.isStatic && e.declaring == e'.declaring && e.name == e'.name

namespace Catalog

def whole : Catalog := ⟨sessionTypes, [], .void, 0⟩

/-- Of two rivals that take something in common, one takes all that the other takes; and no two take the
same. -/
theorem rivals_comparable : ∀ e ∈ Library.entries, ∀ e' ∈ Library.entries, e.rivals e' = true →
    ∀ op ∈ whole.resolve? e, ∀ o ∈ whole.resolve? e',
      (op.takesFlat o.parameters = true ∨ o.takesFlat op.parameters = true ∨ op.apart o = true) ∧
      (op.takesFlat o.parameters = true → o.takesFlat op.parameters = true → e = e') ∧
      (op.takesFlat o.parameters = true → e.returns = e'.returns ∨
        e.declaring = Library.math ∧ e.name ∈ ["abs", "max", "min"] ∧
          (e.returns, e'.returns) ∈ [("long", "int"), ("double", "int"), ("double", "long")]) := by
  decide +kernel

/-- Operations of the library that may be called in place of `op` without the text of the call showing it:
those of the same class with the same name, on the class or on its objects. -/
def overloads (c : Catalog) (op : Operation) : List Operation :=
  (Library.entries.filterMap c.resolve?).filter fun o =>
    o.isStatic == op.isStatic && o.declaring.descriptor == op.declaring.descriptor &&
      o.name == op.name

/-- `o` is what a call of `op` on arguments of the types calls: of the overloads that they fit it is the
most specific. -/
structure Picks (c : Catalog) (op : Operation) (args : List Ty) (o : Operation) : Prop where
  overload : o ∈ c.overloads op
  takes : o.Takes args
  mostSpecific : ∀ o' ∈ c.overloads op, o'.Takes args → o' ≠ o → o'.Takes o.parameters

theorem eq_of_descriptor_eq {t u : Ty} (h : t ∈ sessionTypes) (h' : u ∈ sessionTypes)
    (same : t.descriptor = u.descriptor) : t = u :=
  List.inj_on_of_nodup_map (by decide : (sessionTypes.map Ty.descriptor).Nodup) h h' same

theorem isFlat_of_mem_sessionTypes {t : Ty} (h : t ∈ sessionTypes) : t.isFlat = true :=
  List.all_eq_true.1 (by decide : sessionTypes.all Ty.isFlat = true) t h

theorem mapM_eq_some_of_imp {α β : Type} {f g : α → Option β} (imp : ∀ a b, f a = some b → g a = some b)
    {xs : List α} {ys : List β} (h : xs.mapM f = some ys) : xs.mapM g = some ys := by
  induction xs generalizing ys with
  | nil => exact h
  | cons x rest ih =>
    rw [List.mapM_cons] at h ⊢
    obtain ⟨first, made, h⟩ := Option.bind_eq_some_iff.1 h
    obtain ⟨others, madeOthers, h⟩ := Option.bind_eq_some_iff.1 h
    exact Option.bind_eq_some_iff.2 ⟨first, imp x first made,
      Option.bind_eq_some_iff.2 ⟨others, ih madeOthers, h⟩⟩

structure Resolved (e : Library.Entry) (op : Operation) : Prop where
  whole : whole.resolve? e = some op
  isStatic : op.isStatic = e.isStatic
  name : op.name = e.name
  declaring : op.declaring ∈ sessionTypes ∧ op.declaring.descriptor = e.declaring
  returns : op.returns ∈ sessionTypes ∧ op.returns.descriptor = e.returns
  parameters : ∀ t ∈ op.parameters, t ∈ sessionTypes

variable {c : Catalog} {knobs : Knobs} {op o o' : Operation} {args : List Ty}

namespace Prepared

theorem mem_of_lookup? (prepared : c.Prepared knobs) {descriptor : String} {t : Ty}
    (found : c.lookup? descriptor = some t) : t ∈ sessionTypes ∧ t.descriptor = descriptor := by
  obtain ⟨member, same⟩ := Catalog.mem_of_lookup? found
  exact ⟨prepared.known t member, same⟩

theorem whole_lookup? (prepared : c.Prepared knobs) {descriptor : String} {t : Ty}
    (found : c.lookup? descriptor = some t) : whole.lookup? descriptor = some t := by
  obtain ⟨member, same⟩ := prepared.mem_of_lookup? found
  cases found' : whole.lookup? descriptor with
  | none => exact absurd (by simpa using same) (List.find?_eq_none.1 found' t member)
  | some u =>
    obtain ⟨member', same'⟩ := Catalog.mem_of_lookup? found'
    rw [eq_of_descriptor_eq member' member (same'.trans same.symm)]

theorem resolved (prepared : c.Prepared knobs) {e : Library.Entry} (h : c.resolve? e = some op) :
    Resolved e op := by
  obtain ⟨owner, result, types, ownerFound, resultFound, typesFound, rfl⟩ := exists_of_resolve? h
  have typesFound' := mapM_eq_some_of_imp (fun _ _ => prepared.whole_lookup?) typesFound
  have params : ∀ t ∈ types, t ∈ sessionTypes := by
    intro t member
    obtain ⟨d, _, found⟩ := exists_of_mem_mapM typesFound member
    exact (prepared.mem_of_lookup? found).1
  refine ⟨?_, rfl, rfl, prepared.mem_of_lookup? ownerFound, prepared.mem_of_lookup? resultFound,
    fun t member => ?_⟩
  · unfold resolve?
    rw [prepared.whole_lookup? ownerFound, prepared.whole_lookup? resultFound, typesFound']
    rfl
  · unfold Operation.parameters at member
    dsimp only at member
    split at member
    · exact params t member
    · rcases List.mem_cons.1 member with rfl | param
      · exact (prepared.mem_of_lookup? ownerFound).1
      · exact params t param

end Prepared

namespace Resolved

variable {e e' : Library.Entry}

theorem flat (resolved : Resolved e op) : ∀ t ∈ op.parameters, t.isFlat = true :=
  fun t member => isFlat_of_mem_sessionTypes (resolved.parameters t member)

theorem comparable (resolved : Resolved e op) (listed : e ∈ Library.entries)
    (resolved' : Resolved e' o) (listed' : e' ∈ Library.entries) (rivals : e.rivals e' = true)
    (takes : op.Takes args) (takes' : o.Takes args) :
    op.Takes o.parameters ∨ o.Takes op.parameters := by
  obtain ⟨comparable, _⟩ := rivals_comparable e listed e' listed' rivals op resolved.whole o
    resolved'.whole
  rw [Operation.apart_eq_false takes takes'] at comparable
  rw [Operation.takes_iff resolved.flat resolved'.flat,
    Operation.takes_iff resolved'.flat resolved.flat]
  simpa using comparable

theorem eq_of_takes (resolved : Resolved e op) (listed : e ∈ Library.entries)
    (resolved' : Resolved e' o) (listed' : e' ∈ Library.entries) (rivals : e.rivals e' = true)
    (takes : op.Takes o.parameters) (takes' : o.Takes op.parameters) : op = o := by
  obtain ⟨_, single, _⟩ := rivals_comparable e listed e' listed' rivals op resolved.whole o
    resolved'.whole
  obtain rfl := single ((Operation.takes_iff resolved.flat resolved'.flat).1 takes)
    ((Operation.takes_iff resolved'.flat resolved.flat).1 takes')
  exact Option.some.inj (resolved.whole.symm.trans resolved'.whole)

/-- A narrower rival gives the same type, but for three functions on numbers. -/
theorem narrower (resolved : Resolved e op) (listed : e ∈ Library.entries)
    (resolved' : Resolved e' o) (listed' : e' ∈ Library.entries) (rivals : e.rivals e' = true)
    (takes : op.Takes o.parameters) : o.returns = op.returns ∨ op.declaring = mathType ∧
      op.name ∈ ["abs", "max", "min"] ∧ ∃ k k', op.returns = .primitive k ∧
        o.returns = .primitive k' ∧ k ≠ k' ∧ k.isWideningOf k' = true := by
  obtain ⟨_, _, narrower⟩ := rivals_comparable e listed e' listed' rivals op resolved.whole o
    resolved'.whole
  have primitive {t : Ty} (k : Kind) (member : t ∈ sessionTypes)
      (same : t.descriptor = k.keyword) : t = .primitive k := by
    refine eq_of_descriptor_eq member ?_ same
    simp [sessionTypes, basicTypes, k.mem_all]
  rcases narrower ((Operation.takes_iff resolved.flat resolved'.flat).1 takes) with
    same | ⟨math, name, returns⟩
  · refine .inl (eq_of_descriptor_eq resolved'.returns.1 resolved.returns.1 ?_)
    rw [resolved'.returns.2, resolved.returns.2, same]
  · refine .inr ⟨?_, resolved.name ▸ name, ?_⟩
    · refine eq_of_descriptor_eq resolved.declaring.1 (by simp [sessionTypes]) ?_
      exact resolved.declaring.2.trans math
    · simp only [List.mem_cons, Prod.mk.injEq, List.not_mem_nil, or_false] at returns
      have wide := resolved.returns
      have narrow := resolved'.returns
      rcases returns with ⟨r, r'⟩ | ⟨r, r'⟩ | ⟨r, r'⟩
      · exact ⟨.long, .int, primitive .long wide.1 (wide.2.trans r),
          primitive .int narrow.1 (narrow.2.trans r'), by decide, rfl⟩
      · exact ⟨.double, .int, primitive .double wide.1 (wide.2.trans r),
          primitive .int narrow.1 (narrow.2.trans r'), by decide, rfl⟩
      · exact ⟨.double, .long, primitive .double wide.1 (wide.2.trans r),
          primitive .long narrow.1 (narrow.2.trans r'), by decide, rfl⟩

end Resolved

theorem exists_least {α : Type} {r : α → α → Prop} (trans : ∀ a b c, r a b → r b c → r a c)
    {xs : List α} (total : ∀ a ∈ xs, ∀ b ∈ xs, r a b ∨ r b a) (inhabited : xs ≠ []) :
    ∃ a ∈ xs, ∀ b ∈ xs, r b a := by
  induction xs with
  | nil => contradiction
  | cons x rest ih =>
    have refl := (total x List.mem_cons_self x List.mem_cons_self).elim id id
    by_cases last : rest = []
    · subst last
      exact ⟨x, List.mem_cons_self, fun b member => List.mem_singleton.1 member ▸ refl⟩
    · obtain ⟨a, member, least⟩ := ih (fun a member b member' =>
        total a (List.mem_cons_of_mem x member) b (List.mem_cons_of_mem x member')) last
      rcases total x List.mem_cons_self a (List.mem_cons_of_mem x member) with above | below
      · refine ⟨a, List.mem_cons_of_mem x member, fun b other => ?_⟩
        rcases List.mem_cons.1 other with rfl | later
        · exact above
        · exact least b later
      · refine ⟨x, List.mem_cons_self, fun b other => ?_⟩
        rcases List.mem_cons.1 other with rfl | later
        · exact refl
        · exact trans b a x (least b later) below

namespace Prepared

theorem overload_resolved (prepared : c.Prepared knobs) (h : o ∈ c.overloads op) :
    ∃ e ∈ Library.entries, Resolved e o ∧ o.isStatic = op.isStatic ∧
      o.declaring.descriptor = op.declaring.descriptor ∧ o.name = op.name := by
  obtain ⟨listed, same⟩ := List.mem_filter.1 h
  obtain ⟨e, member, resolved⟩ := List.mem_filterMap.1 listed
  simp only [Bool.and_eq_true, beq_iff_eq] at same
  exact ⟨e, member, prepared.resolved resolved, same.1.1, same.1.2, same.2⟩

theorem rivals_of_overloads (prepared : c.Prepared knobs) (h : o ∈ c.overloads op)
    (h' : o' ∈ c.overloads op) : ∃ e ∈ Library.entries, ∃ e' ∈ Library.entries,
      Resolved e o ∧ Resolved e' o' ∧ e.rivals e' = true := by
  obtain ⟨e, listed, resolved, static, declaring, name⟩ := prepared.overload_resolved h
  obtain ⟨e', listed', resolved', static', declaring', name'⟩ := prepared.overload_resolved h'
  refine ⟨e, listed, e', listed', resolved, resolved', ?_⟩
  simp only [Library.Entry.rivals, Bool.and_eq_true, beq_iff_eq, ← resolved.isStatic,
    ← resolved'.isStatic, ← resolved.declaring.2, ← resolved'.declaring.2, ← resolved.name,
    ← resolved'.name]
  exact ⟨⟨static.trans static'.symm, declaring.trans declaring'.symm⟩, name.trans name'.symm⟩

theorem mem_overloads_self (prepared : c.Prepared knobs) (h : op ∈ c.operations) :
    op ∈ c.overloads op := by
  obtain ⟨e, listed, _, resolved⟩ := prepared.operations op h
  refine List.mem_filter.2 ⟨List.mem_filterMap.2 ⟨e, listed, resolved⟩, ?_⟩
  simp

/-- A call always has one operation that it calls. -/
theorem exists_unique_picks (prepared : c.Prepared knobs) (h : op ∈ c.operations)
    (takes : op.Takes args) :
    ∃ o, c.Picks op args o ∧ ∀ o', c.Picks op args o' → o' = o := by
  classical
  let fitting := (c.overloads op).filter fun o => o.Takes args
  have fits {o : Operation} : o ∈ fitting ↔ o ∈ c.overloads op ∧ o.Takes args := by
    simp [fitting]
  have self : op ∈ fitting := fits.2 ⟨prepared.mem_overloads_self h, takes⟩
  have total : ∀ a ∈ fitting, ∀ b ∈ fitting, a.Takes b.parameters ∨ b.Takes a.parameters := by
    intro a member b member'
    obtain ⟨candidate, takes⟩ := fits.1 member
    obtain ⟨candidate', takes'⟩ := fits.1 member'
    obtain ⟨e, listed, e', listed', resolved, resolved', rivals⟩ :=
      prepared.rivals_of_overloads candidate candidate'
    exact resolved.comparable listed resolved' listed' rivals takes takes'
  obtain ⟨o, member, least⟩ : ∃ o ∈ fitting, ∀ b ∈ fitting, b.Takes o.parameters :=
    @exists_least _ (fun a b => a.Takes b.parameters) (fun _ _ _ => Operation.Takes.trans) fitting
      total (List.ne_nil_of_mem self)
  obtain ⟨candidate, takes⟩ := fits.1 member
  refine ⟨o, ⟨candidate, takes, fun o' candidate' takes' _ => least o' (fits.2 ⟨candidate', takes'⟩)⟩,
    fun o' picks => ?_⟩
  by_contra other
  obtain ⟨e, listed, e', listed', resolved, resolved', rivals⟩ :=
    prepared.rivals_of_overloads picks.overload candidate
  exact other (resolved.eq_of_takes listed resolved' listed' rivals
    (least o' (fits.2 ⟨picks.overload, picks.takes⟩))
    (picks.mostSpecific o candidate takes (Ne.symm other)))

end Prepared

/-- A library call made for `op` calls one operation, the same for every choice among the overloads. Its
value is of the type that `op` gives, unless `op` is `abs`, `max` or `min` on a kind for which there is
a narrower overload that the arguments fit. -/
theorem call_returns (catalog : Catalog) (knobs : Knobs) :
    ∃ c, catalog.reset.prepare knobs = .ok c ∧ ∀ op ∈ c.operations, ∀ args, op.Takes args →
      ∃ o, (∀ o', c.Picks op args o' ↔ o' = o) ∧ (o.returns = op.returns ∨
        op.declaring = mathType ∧ op.name ∈ ["abs", "max", "min"] ∧ ∃ k k',
          op.returns = .primitive k ∧ o.returns = .primitive k' ∧ k ≠ k' ∧
          k.isWideningOf k' = true) := by
  obtain ⟨c, done, prepared⟩ := catalog.prepare_reset knobs
  refine ⟨c, done, fun op admitted args takes => ?_⟩
  obtain ⟨o, picks, single⟩ := prepared.exists_unique_picks admitted takes
  refine ⟨o, fun o' => ⟨single o', fun same => same ▸ picks⟩, ?_⟩
  have self := prepared.mem_overloads_self admitted
  by_cases same : op = o
  · exact .inl (congrArg Operation.returns same.symm)
  · obtain ⟨e, listed, e', listed', resolved, resolved', rivals⟩ :=
      prepared.rivals_of_overloads self picks.overload
    exact resolved.narrower listed resolved' listed' rivals
      (picks.mostSpecific op self takes same)

/-- The absolute value of a whole number is no floating-point number, though `abs` on those takes it. -/
theorem abs_double_calls_abs_int : ∃ c op o, Catalog.new.reset.prepare .default = .ok c ∧
    op ∈ c.operations ∧ op.Takes [.primitive .int] ∧ c.Picks op [.primitive .int] o ∧
    op.returns = .primitive .double ∧ o.returns = .primitive .int := by
  obtain ⟨c, done, prepared⟩ := Catalog.new.prepare_reset .default
  have found : (Catalog.new.reset.prepare .default).toOption.any (fun c => c.operations.any fun op =>
      op.returns.same (.primitive .double) && op.takesFlat [.primitive .int] &&
      (c.overloads op).any fun o => o.returns.same (.primitive .int) &&
        o.takesFlat [.primitive .int] && (c.overloads op).all fun o' =>
          !o'.takesFlat [.primitive .int] || o'.takesFlat o.parameters) = true := by
    decide +kernel
  rw [done] at found
  obtain ⟨op, admitted, found⟩ := List.any_eq_true.1 found
  simp only [Bool.and_eq_true] at found
  obtain ⟨⟨wide, takes⟩, found⟩ := found
  obtain ⟨o, overload, found⟩ := List.any_eq_true.1 found
  simp only [Bool.and_eq_true] at found
  obtain ⟨⟨narrow, takes'⟩, least⟩ := found
  have flat {o : Operation} (candidate : o ∈ c.overloads op) : ∀ t ∈ o.parameters, t.isFlat = true := by
    obtain ⟨_, _, resolved, _⟩ := prepared.overload_resolved candidate
    exact resolved.flat
  have given : ∀ t ∈ [Ty.primitive .int], t.isFlat = true := by decide
  refine ⟨c, op, o, done, admitted, ?_, ⟨overload, ?_, fun o' candidate takes' _ => ?_⟩,
    Ty.eq_primitive_of_same wide, Ty.eq_primitive_of_same narrow⟩
  · exact (Operation.takes_iff (flat (prepared.mem_overloads_self admitted)) given).2 takes
  · exact (Operation.takes_iff (flat overload) given).2 takes'
  · have covered := List.all_eq_true.1 least o' candidate
    rw [(Operation.takes_iff (flat candidate) given).1 takes', Bool.not_true, Bool.false_or] at covered
    exact (Operation.takes_iff (flat candidate) (flat overload)).2 covered

end Catalog
end JavaSmith
