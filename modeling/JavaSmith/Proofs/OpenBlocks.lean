import JavaSmith.Generator.Block

/-! Code that opens and closes blocks of one scope, which it shares with the code around it. Whatever it
does in a block and however that ends, the scope is afterwards what it was before; and at all times the
locals in sight are those of the blocks that are open. -/
namespace JavaSmith

/-- Code as the tree of what it does with a scope. It can look at the locals in sight, and it gets to know
how each block inside it has ended. -/
inductive Closure (ε α : Type) where
  | finish (result : Except ε α)
  | declare (l : LocalId) (rest : Closure ε α)
  | look (rest : List LocalId → Closure ε α)
  | block (body : Closure ε α) (rest : Except ε α → Closure ε α)

variable {ε α : Type}

namespace Closure

def run : Closure ε α → Scope → Except ε α × Scope
  | finish result, s => (result, s)
  | declare l rest, s => rest.run (s.declare l)
  | look rest, s => (rest s.visible).run s
  | block body rest, s =>
    let (result, after) := s.within body.run
    (rest result).run after

end Closure

namespace Scope

theorem leave_declare (s : Scope) (l : LocalId) : (s.declare l).leave = s.leave := by
  unfold declare
  split
  · rfl
  · next block outer blocks => rw [leave, leave, blocks, List.tail_cons, List.tail_cons]

/-- Code changes nothing but the innermost block. -/
theorem leave_run (c : Closure ε α) (s : Scope) : (c.run s).2.leave = s.leave := by
  induction c generalizing s with
  | finish => rfl
  | declare l rest ih => exact (ih (s.declare l)).trans (s.leave_declare l)
  | look rest ih => exact ih s.visible s
  | block body rest inside after =>
    -- the body keeps all below its own block, so what follows starts from the scope before it
    have restored : (s.within body.run).2 = s := inside s.enter
    calc ((rest (s.within body.run).1).run (s.within body.run).2).2.leave
        = (s.within body.run).2.leave := after ..
      _ = s.leave := by rw [restored]

theorem within_run (s : Scope) (c : Closure ε α) : (s.within c.run).2 = s := leave_run c s.enter

end Scope

namespace Closure

inductive Event where
  | opened
  | declared (l : LocalId)
  | closed
  deriving DecidableEq

/-- A point of a run: the code still to run in the innermost block, what follows it in each block around
it, inner ones first, and the scope. -/
structure Moment (ε α : Type) where
  code : Closure ε α
  pending : List (Except ε α → Closure ε α)
  scope : Scope

/-- The points that the run of the code in a block of the scope passes, each with all that has happened
so far, the latest first. -/
inductive Passes (s : Scope) (c : Closure ε α) : List Event → Moment ε α → Prop where
  | start : Passes s c [.opened] ⟨c, [], s.enter⟩
  | declare {h : List Event} {l : LocalId} {rest : Closure ε α}
      {pending : List (Except ε α → Closure ε α)} {t : Scope} :
    Passes s c h ⟨.declare l rest, pending, t⟩ →
      Passes s c (.declared l :: h) ⟨rest, pending, t.declare l⟩
  | look {h : List Event} {rest : List LocalId → Closure ε α}
      {pending : List (Except ε α → Closure ε α)} {t : Scope} :
    Passes s c h ⟨.look rest, pending, t⟩ → Passes s c h ⟨rest t.visible, pending, t⟩
  | enter {h : List Event} {body : Closure ε α} {rest : Except ε α → Closure ε α}
      {pending : List (Except ε α → Closure ε α)} {t : Scope} :
    Passes s c h ⟨.block body rest, pending, t⟩ →
      Passes s c (.opened :: h) ⟨body, rest :: pending, t.enter⟩
  | leave {h : List Event} {result : Except ε α} {rest : Except ε α → Closure ε α}
      {pending : List (Except ε α → Closure ε α)} {t : Scope} :
    Passes s c h ⟨.finish result, rest :: pending, t⟩ →
      Passes s c (.closed :: h) ⟨rest result, pending, t.leave⟩

/-- From each point the run comes to the end of the code in its block. -/
theorem Passes.finish {s : Scope} {c : Closure ε α} (code : Closure ε α) {h : List Event}
    {pending : List (Except ε α → Closure ε α)} {t : Scope} (passes : Passes s c h ⟨code, pending, t⟩) :
    ∃ h', Passes s c h' ⟨.finish (code.run t).1, pending, (code.run t).2⟩ := by
  induction code generalizing h pending t with
  | finish result => exact ⟨h, passes⟩
  | declare l rest ih => exact ih passes.declare
  | look rest ih => exact ih t.visible passes.look
  | block body rest inside after =>
    obtain ⟨_, bodyEnded⟩ := inside passes.enter
    exact after _ bodyEnded.leave

/-! Which blocks are open is read off what has happened, from the latest back: a block that has been
closed is skipped together with what it holds. -/

/-- The locals of the blocks that are open, innermost first, when so many more of the blocks around what
has happened have been closed since. -/
def openBlocks : Nat → List Event → List (List LocalId)
  | _, [] => []
  | closed, .closed :: h => openBlocks (closed + 1) h
  | 0, .opened :: h => [] :: openBlocks 0 h
  | 0, .declared l :: h => (openBlocks 0 h).modifyHead (· ++ [l])
  | closed + 1, .opened :: h => openBlocks closed h
  | closed + 1, .declared _ :: h => openBlocks (closed + 1) h

theorem openBlocks_succ (closed : Nat) (h : List Event) :
    openBlocks (closed + 1) h = (openBlocks closed h).tail := by
  induction h generalizing closed with
  | nil => rfl
  | cons e h ih =>
    cases e with
    | closed => exact ih (closed + 1)
    | opened =>
      cases closed with
      | zero => rfl
      | succ closed => exact ih closed
    | declared l =>
      cases closed with
      | zero =>
        rw [openBlocks, openBlocks, ih]
        cases openBlocks 0 h <;> rfl
      | succ closed => exact ih (closed + 1)

/-- The innermost block that was open is open still: at no time since have more blocks been closed than
opened. -/
def Lasts (newer : List Event) : Prop :=
  ∀ since, since <:+ newer → since.count .closed ≤ since.count .opened

/-- The local has been declared in a block that is open, even when so many more blocks are closed. -/
def Lives (closed : Nat) (l : LocalId) (h : List Event) : Prop :=
  ∃ newer older, h = newer ++ .declared l :: older ∧ Lasts newer ∧
    newer.count .closed + closed ≤ newer.count .opened

theorem lasts_cons {e : Event} {newer : List Event} :
    Lasts (e :: newer) ↔ (e :: newer).count .closed ≤ (e :: newer).count .opened ∧ Lasts newer := by
  simp only [Lasts, List.suffix_cons_iff, forall_eq_or_imp]

namespace Lives

variable {closed : Nat} {l k : LocalId} {e : Event} {h : List Event}

theorem not_nil : ¬ Lives closed l [] := by
  rintro ⟨newer, older, none, -⟩
  simp at none

theorem cons_iff (closed' : Nat)
    (shift : ∀ newer : List Event, newer.count .closed ≤ newer.count .opened →
      ((e :: newer).count .closed + closed ≤ (e :: newer).count .opened ↔
        newer.count .closed + closed' ≤ newer.count .opened)) :
    Lives closed l (e :: h) ↔ e = .declared l ∧ closed = 0 ∨ Lives closed' l h := by
  constructor
  · rintro ⟨_ | ⟨_, newer⟩, older, same, lasts, bound⟩
    · exact .inl ⟨(List.cons.inj same).1, by simpa using bound⟩
    · obtain ⟨rfl, rest⟩ := List.cons.inj same
      have lasts := (lasts_cons.1 lasts).2
      exact .inr ⟨newer, older, rest, lasts, (shift newer (lasts newer (List.suffix_refl _))).1 bound⟩
  · rintro (⟨rfl, rfl⟩ | ⟨newer, older, rfl, lasts, bound⟩)
    · exact ⟨[], h, rfl, fun since inside => List.suffix_nil.1 inside ▸ Nat.le_refl _, Nat.le_refl _⟩
    · have bound := (shift newer (lasts newer (List.suffix_refl _))).2 bound
      exact ⟨e :: newer, older, rfl, lasts_cons.2 ⟨by omega, lasts⟩, bound⟩

theorem closed_iff : Lives closed l (.closed :: h) ↔ Lives (closed + 1) l h :=
  (cons_iff (closed + 1) fun newer _ => by simp; omega).trans (by simp)

theorem opened_iff : Lives 0 l (.opened :: h) ↔ Lives 0 l h :=
  (cons_iff 0 fun newer _ => by simp; omega).trans (by simp)

theorem opened_succ_iff : Lives (closed + 1) l (.opened :: h) ↔ Lives closed l h :=
  (cons_iff closed fun newer _ => by simp; omega).trans (by simp)

theorem declared_iff :
    Lives closed l (.declared k :: h) ↔ l = k ∧ closed = 0 ∨ Lives closed l h :=
  (cons_iff closed fun newer _ => by simp).trans (by simp [eq_comm])

end Lives

/-- What a moment of the run in a block of `s` has to do with what has happened. -/
structure Follows (s : Scope) (h : List Event) (m : Moment ε α) : Prop where
  blocks : m.scope.blocks = openBlocks 0 h ++ s.blocks
  depth : (openBlocks 0 h).length = m.pending.length + 1
  lives : ∀ closed l, l ∈ (openBlocks closed h).flatten ↔ Lives closed l h

namespace Follows

variable {s t : Scope} {h : List Event} {pending : List (Except ε α → Closure ε α)}

theorem lives_opened (lives : ∀ closed l, l ∈ (openBlocks closed h).flatten ↔ Lives closed l h) :
    ∀ closed l, l ∈ (openBlocks closed (.opened :: h)).flatten ↔ Lives closed l (.opened :: h)
  | 0, l => (lives 0 l).trans Lives.opened_iff.symm
  | closed + 1, l => (lives closed l).trans Lives.opened_succ_iff.symm

theorem start (c : Closure ε α) : Follows s [.opened] ⟨c, [], s.enter⟩ where
  blocks := rfl
  depth := rfl
  lives := lives_opened fun closed l => by
    rw [openBlocks]
    exact iff_of_false (List.not_mem_nil) Lives.not_nil

theorem declare {l : LocalId} {rest : Closure ε α}
    (follows : Follows s h ⟨.declare l rest, pending, t⟩) :
    Follows s (.declared l :: h) ⟨rest, pending, t.declare l⟩ := by
  obtain ⟨block, outer, here⟩ :=
    List.exists_cons_of_length_eq_add_one follows.depth
  have now : openBlocks 0 (.declared l :: h) = (block ++ [l]) :: outer := by
    rw [openBlocks, here, List.modifyHead_cons]
  refine ⟨?_, ?_, ?_⟩
  · have blocks : t.blocks = block :: (outer ++ s.blocks) := by
      rw [follows.blocks, here, List.cons_append]
    rw [now, Scope.declare, blocks]
    rfl
  · rw [now, List.length_cons, ← follows.depth, here, List.length_cons]
  · rintro (_ | closed) k
    · rw [now, Lives.declared_iff, ← follows.lives 0 k, here]
      simp [or_left_comm]
    · rw [openBlocks, Lives.declared_iff, follows.lives]
      simp

theorem enter {body : Closure ε α} {rest : Except ε α → Closure ε α}
    (follows : Follows s h ⟨.block body rest, pending, t⟩) :
    Follows s (.opened :: h) ⟨body, rest :: pending, t.enter⟩ where
  blocks := congrArg ([] :: ·) follows.blocks
  depth := congrArg (· + 1) follows.depth
  lives := lives_opened follows.lives

theorem leave {result : Except ε α} {rest : Except ε α → Closure ε α}
    (follows : Follows s h ⟨.finish result, rest :: pending, t⟩) :
    Follows s (.closed :: h) ⟨rest result, pending, t.leave⟩ := by
  have now : openBlocks 0 (.closed :: h) = (openBlocks 0 h).tail := openBlocks_succ 0 h
  obtain ⟨block, outer, here⟩ := List.exists_cons_of_length_eq_add_one follows.depth
  have blocks : t.blocks = openBlocks 0 h ++ s.blocks := follows.blocks
  have depth : (openBlocks 0 h).length = pending.length + 2 := follows.depth
  refine ⟨?_, ?_, fun closed l => (follows.lives (closed + 1) l).trans Lives.closed_iff.symm⟩
  · change t.blocks.tail = _
    rw [now, blocks, here]
    rfl
  · rw [now, List.length_tail, depth]
    rfl

end Follows

variable {s : Scope} {c : Closure ε α} {h : List Event} {m : Moment ε α}

theorem Passes.follows (passes : Passes s c h m) : Follows s h m := by
  induction passes with
  | start => exact .start c
  | declare _ ih => exact ih.declare
  | look _ ih => exact ⟨ih.blocks, ih.depth, ih.lives⟩
  | enter _ ih => exact ih.enter
  | leave _ ih => exact ih.leave

theorem lives_iff {l : LocalId} :
    Lives 0 l h ↔ ∃ newer older, h = newer ++ .declared l :: older ∧ Lasts newer := by
  constructor
  · rintro ⟨newer, older, split, lasts, -⟩
    exact ⟨newer, older, split, lasts⟩
  · rintro ⟨newer, older, split, lasts⟩
    exact ⟨newer, older, split, lasts, lasts newer (List.suffix_refl _)⟩

namespace Follows

theorem visible_eq (follows : Follows s h m) :
    m.scope.visible = s.visible ++ (openBlocks 0 h).reverse.flatten := by
  rw [Scope.visible, follows.blocks, List.reverse_append, List.flatten_append, Scope.visible]

theorem mem_visible (follows : Follows s h m) (l : LocalId) :
    l ∈ m.scope.visible ↔
      l ∈ s.visible ∨ ∃ newer older, h = newer ++ .declared l :: older ∧ Lasts newer := by
  rw [follows.visible_eq, List.mem_append, ← lives_iff, ← follows.lives]
  simp only [List.mem_flatten, List.mem_reverse]

end Follows

/-- A block leaves no trace in the scope, whatever is done in it and whether it ends well or not. At each
point that its run passes, on the way to its end, there is in sight what was so before and then what the
open blocks have declared, outer ones first and each in its order. A local comes into sight where it is
declared, and goes out of sight where its block is closed. -/
theorem blocks_balanced (s : Scope) (c : Closure ε α) :
    (s.within c.run).2 = s ∧
    (∃ h t, Passes s c h ⟨.finish (s.within c.run).1, [], t⟩ ∧ t.leave = s) ∧
    ∀ h m, Passes s c h m →
      m.scope.visible = s.visible ++ (openBlocks 0 h).reverse.flatten ∧
      (openBlocks 0 h).length = m.pending.length + 1 ∧
      ∀ l, l ∈ m.scope.visible ↔
        l ∈ s.visible ∨ ∃ newer older, h = newer ++ .declared l :: older ∧ Lasts newer := by
  obtain ⟨h, ended⟩ := Passes.finish c (.start : Passes s c _ _)
  refine ⟨s.within_run c, ⟨h, _, ended, s.within_run c⟩, fun h m passes => ?_⟩
  have follows := passes.follows
  exact ⟨follows.visible_eq, follows.depth, follows.mem_visible⟩

end Closure

/-! The generator hands the scope down to the blocks that it writes and goes on with the scope from
before, where the code here changes one scope and restores it. Both come to the same. -/

mutual

def Statement.closure (rest : Closure ε Unit) : Statement → Closure ε Unit
  | .declare l _ => .declare l rest
  | .ifThen _ body => .block (Block.closure (.finish (.ok ())) body) fun _ => rest
  | .ifElse _ body otherwise =>
    .block (Block.closure (.finish (.ok ())) body) fun _ =>
      .block (Block.closure (.finish (.ok ())) otherwise) fun _ => rest
  | .loop _ counter _ body =>
    .block (.declare counter (Block.closure (.finish (.ok ())) body)) fun _ => rest
  | .expression _ | .print _ | .returnVoid | .returnValue _ => rest

def Block.closure (rest : Closure ε Unit) : List Statement → Closure ε Unit
  | [] => rest
  | first :: others => first.closure (Block.closure rest others)

end

theorem Closure.run_block (body : Closure ε α) (rest : Except ε α → Closure ε α) (s : Scope) :
    (Closure.block body rest).run s = (rest (s.within body.run).1).run s := by
  calc (rest (s.within body.run).1).run (s.within body.run).2
      = (rest (s.within body.run).1).run s := by rw [s.within_run]

theorem Statement.run_closure (first : Statement) (rest : Closure ε Unit) (s : Scope) :
    (first.closure rest).run s = rest.run (Generator.after s first) := by
  cases first with
  | declare => rw [closure]; rfl
  | ifThen | loop => rw [closure, Closure.run_block]; rfl
  | ifElse => rw [closure, Closure.run_block, Closure.run_block]; rfl
  | _ => rw [closure]; rfl

theorem Block.run_closure (b : Block) (rest : Closure ε Unit) (s : Scope) :
    (Block.closure rest b).run s = rest.run (b.foldl Generator.after s) := by
  induction b generalizing s with
  | nil => rw [Block.closure, List.foldl_nil]
  | cons first others ih => rw [Block.closure, Statement.run_closure, ih, List.foldl_cons]

end JavaSmith
