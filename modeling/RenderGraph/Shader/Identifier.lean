import RenderGraph.Text.Scan

/-!
# Identifiers made of ids

An arbitrary id becomes part of an identifier by joining its runs of letters and digits with single
underscores. What would be empty or begin with a digit gets a `p` in front.

## Main definitions

* `Shader.sanitize`
* `Shader.samplerName`: the sampler that reads a pass
-/

namespace RenderGraph.Shader

/-- The runs of letters and digits of an id. -/
def alphanumericRuns (id : List Char) : List (List Char) :=
  (Text.split '_' (id.map fun c => if c.isAlphanum then c else '_')).filter (!·.isEmpty)

/-- An id as part of an identifier. -/
def sanitize (id : String) : String :=
  let joined := "_".intercalate ((alphanumericRuns id.toList).map String.ofList)
  match joined.toList with
  | [] => "p"
  | c :: _ => if c.isDigit then "p_" ++ joined else joined

/-- The sampler that reads what a pass has drawn. -/
def samplerName (pass : String) : String :=
  "u_pass_" ++ sanitize pass ++ "_tex"

end RenderGraph.Shader
