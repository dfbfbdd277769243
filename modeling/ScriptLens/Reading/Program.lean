import ScriptLens.Reading.Statement

/-! # Reading programs

Every tree has a reading, and every reading of a root is a program: what cannot be
read is kept as a broken region or left out.
-/
namespace ScriptLens

def Site.reading (source : ByteArray) (s : Site) : Reading :=
  let expr := s.expr source
  ⟨s.head, expr, s.items expr, s.stmt source expr, s.pattern source expr, s.children⟩

mutual

def Reading.ofCst (source : ByteArray) : Cst → Reading
  | .node head children => Site.reading source ⟨head, Reading.ofCsts source children⟩

def Reading.ofCsts (source : ByteArray) : List Cst → List Reading
  | [] => []
  | tree :: rest => Reading.ofCst source tree :: Reading.ofCsts source rest

end

/-- A program spans the whole source, wherever its first statement starts. -/
def Program.ofCst (source : ByteArray) (root : Cst) : Program :=
  ⟨⟨1, source.size + 1⟩, (Reading.ofCst source root).site.statements⟩

end ScriptLens
