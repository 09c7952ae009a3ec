/-! # Lines

What is printed, listed, reported or traced is a sequence of lines; a stream or a file holds each of
them with a line end behind it. -/

namespace Lox.Text

/-- Lines as a stream holds them. -/
def ofLines (lines : Array String) : String :=
  lines.foldl (fun text line => text ++ line ++ "\n") ""

@[simp] theorem ofLines_empty : ofLines #[] = "" := rfl

/-- A further line stands behind the ones before it. -/
@[simp] theorem ofLines_push (lines : Array String) (line : String) :
    ofLines (lines.push line) = ofLines lines ++ line ++ "\n" := by
  simp [ofLines]

end Lox.Text
