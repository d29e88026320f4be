/-!
# Failures

Everything that can go wrong has one of nine causes, each with its detail; `message`
is the one place where they are put into words.
-/

namespace ObjectQuery

/-- What went wrong. -/
inductive Failure where
  | settings (detail : String)
  | discovery (path detail : String)
  | comparison (detail : String)
  | impermissible (detail instruction : String)
  | unsupported (detail : String)
  | index (detail : String)
  | pipeline (detail : String)
  | execution (detail : String)
  | lock (detail : String)
deriving DecidableEq

/-- A failure in words. -/
def Failure.message : Failure → String
  | .settings detail => "Config error: " ++ detail
  | .discovery path detail => "Discovery of '" ++ path ++ "' failed: " ++ detail
  | .comparison detail => "Comparison error: " ++ detail
  | .impermissible detail _ => "Impermissible instruction: " ++ detail
  | .unsupported detail => "Unsupported instruction: " ++ detail
  | .index detail => "Index error: " ++ detail
  | .pipeline detail => "Pipeline error: " ++ detail
  | .execution detail => "Execution error: " ++ detail
  | .lock detail => "Lock poisoned: " ++ detail

end ObjectQuery
