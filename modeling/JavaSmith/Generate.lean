import JavaSmith.Generator.Method

/-! Generation of a class from a seed. -/
namespace JavaSmith

structure Config where
  className : String
  knobs : Knobs
  deriving Inhabited

def Config.default : Config := ⟨"FuzzTest", .default⟩

namespace Generator

/-- Writes the body of the entry method, which may cost as much as a run may execute. -/
def entryBody (catalog : Catalog) : Gen Unit := do
  let knobs ← Gen.view Program.knobs
  let n ← Gen.draw (length (knobs.get .maxProgramLength))
  let ctx := (Context.ofKnobs knobs).enterMethod Program.entryId false runBudget
  let body ← Gen.block ⟨catalog, ctx, .empty⟩ n
  Gen.recordCost Program.entryId body
  Gen.step fun p => ((), { p with entry := { p.entry with body } })

end Generator

/-- The class that the seed determines, and the catalog after the session, which is reset first. -/
def generateWith (catalog : Catalog) (seed : UInt64) (config : Config) :
    Except Fault (Program × Catalog) := do
  let catalog ← catalog.reset.prepare config.knobs
  let draft : Draft := ⟨.new config.className seed config.knobs, .ofSeed seed⟩
  match Generator.entryBody catalog draft with
  | .ok () draft => return (draft.program, catalog)
  | .error fault _ => throw fault

def generate (seed : UInt64) (config : Config) : Except Fault Program := do
  let (program, _) ← generateWith .new seed config
  return program

end JavaSmith
