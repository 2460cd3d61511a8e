import JavaSmith.Ty.Basic

/-! Which types a place accepts. The relation is a preorder on the types values can have; `void`
stands outside it, not even accepting itself. A restricted type accepts only restricted types whose
domain lies within its own, which is what keeps a domain from leaking. -/
namespace JavaSmith.Ty

/-- Components of arrays: of one primitive kind exactly, or references that are accepted themselves. -/
def acceptsComponent (itself : Bool) : Ty → Ty → Bool
  | primitive k, given => given.kind? == some k
  | restricted r, given => given.kind? == some r.base
  | _, _ => itself

/-- `wanted.accepts given` says that a value of type `given` may be used where `wanted` stands. -/
def accepts : Ty → Ty → Bool
  | void, _ | _, void => false
  | primitive k, primitive k' => k.isWideningOf k'
  | primitive k, restricted r =>
    k.isWideningOf r.base &&
    match k.bounds? with
    | some (lo, hi) => (Domain.range lo hi).contains r.domain
    | none => true
  | restricted r, restricted r' => r.base.isWideningOf r'.base && r.domain.contains r'.domain
  | object, t => t.isNullable
  | array c n, array c' n' => n == n' && acceptsComponent (c.accepts c') c c'
  | t, t' => t.isReference && t == t'

theorem accepts_void (t : Ty) : t.accepts void = false := by
  cases t <;> simp [accepts]

theorem void_accepts (t : Ty) : void.accepts t = false := by
  cases t <;> simp [accepts]

end JavaSmith.Ty
