import ChipEight.Screen.Basic

/-!
The screen as text: a line for each row, a character for each pixel.
-/

namespace ChipEight.Grid

def pixelChar (on : Bool) : Char :=
  if on then '#' else '.'

def rowText (row : BitVec 64) : String :=
  String.ofList ((List.range 64).map fun x => pixelChar (row.getMsbD x))

def text (g : Grid) : String :=
  String.join (g.toList.map fun row => rowText row ++ "\n")

end ChipEight.Grid
