-- Trees printed as indented lines.

namespace Frontend.Text

structure Line where
  depth : Nat
  text : String
deriving DecidableEq

def indentWidth : Nat := 2

def Line.render (line : Line) : String :=
  String.ofList (List.replicate (line.depth * indentWidth) ' ') ++ line.text ++ "\n"

def renderLines (lines : List Line) : String := String.join (lines.map Line.render)

end Frontend.Text
