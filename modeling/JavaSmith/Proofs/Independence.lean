import JavaSmith.Proofs.Epochs
import JavaSmith.Proofs.Generation

/-! A session does not depend on what its catalog was used for before. Types that were registered stay
until the catalog is reset, and a session resets it first; all that is left of the past is the epoch,
which generators do not see. -/
namespace JavaSmith

inductive CatalogEvent where
  | register (t : Ty)
  | registerLibrary
  | setIndexType (maxSize : Nat)
  | admitOperations (allowOverflow allowDivideByZero : Bool)
  | prepare (knobs : Knobs)
  | reset
  | generate (seed : UInt64) (config : Config)

namespace Catalog

def after (c : Catalog) : CatalogEvent → Except Fault Catalog
  | .register t => .ok (c.register t)
  | .registerLibrary => c.registerLibrary
  | .setIndexType maxSize => .ok (c.withIndexType maxSize)
  | .admitOperations allowOverflow allowDivideByZero =>
    .ok (c.withOperations allowOverflow allowDivideByZero)
  | .prepare knobs => c.prepare knobs
  | .reset => .ok c.reset
  | .generate seed config => (generateWith c seed config).map Prod.snd

def afterAll (c : Catalog) (history : List CatalogEvent) : Except Fault Catalog :=
  history.foldlM after c

theorem registerAll_atEpoch (c : Catalog) (n : Nat) (ts : List Ty) :
    (c.atEpoch n).registerAll ts = (c.registerAll ts).atEpoch n := by
  induction ts generalizing c with
  | nil => rfl
  | cons t rest ih => exact ih (c.register t)

theorem registerLibrary_atEpoch (c : Catalog) (n : Nat) :
    (c.atEpoch n).registerLibrary = c.registerLibrary.map (atEpoch · n) := by
  unfold registerLibrary
  rw [registerAll_atEpoch]
  dsimp only
  generalize c.registerAll (Kind.all.map .boxed) = boxed
  have same : (boxed.atEpoch n).lookupAll = boxed.lookupAll := rfl
  rw [same]
  cases Library.stringBuilderParameters.mapM boxed.lookupAll <;> rfl

theorem prepare_atEpoch (c : Catalog) (n : Nat) (knobs : Knobs) :
    (c.atEpoch n).prepare knobs = (c.prepare knobs).map (atEpoch · n) := by
  unfold prepare
  rw [registerLibrary_atEpoch]
  cases c.registerLibrary <;> rfl

theorem fresh_atEpoch (m n : Nat) : (fresh m).atEpoch n = fresh n := by
  unfold fresh
  rw [← registerAll_atEpoch]
  rfl

theorem reset_eq (c : Catalog) : c.reset = Catalog.new.reset.atEpoch (c.epoch + 1) := by
  unfold reset
  rw [fresh_atEpoch]

end Catalog

open Catalog

/-- A session gives what it gives with a new catalog, apart from the epoch. -/
theorem generateWith_eq (c : Catalog) (seed : UInt64) (config : Config) :
    generateWith c seed config =
      (generateWith .new seed config).map fun (p, fresh) => (p, fresh.atEpoch (c.epoch + 1)) := by
  unfold generateWith
  rw [reset_eq c, prepare_atEpoch]
  cases Catalog.new.reset.prepare config.knobs with
  | error fault => rfl
  | ok fresh =>
    dsimp only [Except.map, bind, Except.bind]
    rw [Generator.entryBody_atEpoch]
    cases Generator.entryBody fresh ⟨.new config.className seed config.knobs, .ofSeed seed⟩ <;> rfl

theorem prepare_of_generateWith {c c' : Catalog} {p : Program} {seed : UInt64} {config : Config}
    (done : generateWith c seed config = .ok (p, c')) : c.reset.prepare config.knobs = .ok c' := by
  unfold generateWith at done
  cases prepared : c.reset.prepare config.knobs with
  | error fault =>
    rw [prepared] at done
    contradiction
  | ok catalog =>
    rw [prepared] at done
    dsimp only [bind, Except.bind] at done
    split at done
    · exact congrArg Except.ok (Prod.mk.inj (Except.ok.inj done)).2
    · cases done

namespace Catalog

variable {c : Catalog}

theorem has_string_fresh (epoch : Nat) : (fresh epoch).Has Library.string :=
  has_registerAll _ (t := .string) (by simp [basicTypes])

theorem Has.registerLibrary (string : c.Has Library.string) :
    ∃ c', c.registerLibrary = .ok c' ∧ c'.Has Library.string := by
  have boxed := string.registerAll (Kind.all.map .boxed)
  obtain ⟨t, _, _, found⟩ := boxed.lookup
  exact ⟨_, registerLibrary_of_lookup found, (boxed.register _).register _⟩

theorem Has.prepare (string : c.Has Library.string) (knobs : Knobs) :
    ∃ c', c.prepare knobs = .ok c' ∧ c'.Has Library.string := by
  obtain ⟨library, registered, string⟩ := string.registerLibrary
  unfold Catalog.prepare
  rw [registered]
  exact ⟨_, rfl, string⟩

theorem Has.after (string : c.Has Library.string) (event : CatalogEvent) :
    ∃ c', c.after event = .ok c' ∧ c'.Has Library.string := by
  cases event with
  | register t => exact ⟨_, rfl, string.register t⟩
  | registerLibrary => exact string.registerLibrary
  | setIndexType | admitOperations => exact ⟨_, rfl, string⟩
  | prepare knobs => exact string.prepare knobs
  | reset => exact ⟨_, rfl, has_string_fresh _⟩
  | generate seed config =>
    obtain ⟨p, c', done, _⟩ := generateWith_ok c seed config
    obtain ⟨prepared, ready, string⟩ := (has_string_fresh (c.epoch + 1)).prepare config.knobs
    cases (prepare_of_generateWith done).symm.trans ready
    exact ⟨c', congrArg (·.map Prod.snd) done, string⟩

theorem Has.afterAll (string : c.Has Library.string) (history : List CatalogEvent) :
    ∃ c', c.afterAll history = .ok c' ∧ c'.Has Library.string := by
  induction history generalizing c with
  | nil => exact ⟨c, rfl, string⟩
  | cons event rest ih =>
    obtain ⟨c', first, string⟩ := string.after event
    obtain ⟨c'', others, string⟩ := ih string
    refine ⟨c'', ?_, string⟩
    rw [Catalog.afterAll, List.foldlM_cons, first]
    exact others

end Catalog

/-- Whatever a catalog was used for, a session with it generates the class that a session of its own
would, and leaves the catalog as that would leave a new one, one epoch further. -/
theorem generate_after_history (history : List CatalogEvent) (seed : UInt64) (config : Config) :
    ∃ c, Catalog.new.afterAll history = .ok c ∧
      ∃ p fresh c', generate seed config = .ok p ∧
        generateWith .new seed config = .ok (p, fresh) ∧ generateWith c seed config = .ok (p, c') ∧
        c'.types = fresh.types ∧ c'.operations = fresh.operations ∧
        c'.indexType = fresh.indexType ∧ c'.epoch = c.epoch + 1 := by
  obtain ⟨c, used, _⟩ := (has_string_fresh 0).afterAll history
  obtain ⟨p, fresh, done, _⟩ := generateWith_ok .new seed config
  refine ⟨c, used, p, fresh, fresh.atEpoch (c.epoch + 1), ?_, done, ?_, rfl, rfl, rfl, rfl⟩
  · rw [generate, done]
    rfl
  · rw [generateWith_eq, done]
    rfl

end JavaSmith
