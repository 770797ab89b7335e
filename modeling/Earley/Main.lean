import Earley.Calculator

/-!
# Main — the calculator on the command line

With arguments, their expression is answered.  Without, expressions are read line by line.
-/

namespace Earley

/-- Answers line after line until the input ends. -/
partial def converse (input output : IO.FS.Stream) : IO Unit := do
  output.putStr Calculator.prompt
  output.flush
  let line ← input.getLine
  if !line.isEmpty then
    output.putStrLn (Calculator.answer (Calculator.chomp line))
    converse input output

end Earley

/-- The calculator. -/
def main (args : List String) : IO UInt32 := do
  if args.isEmpty then
    Earley.converse (← IO.getStdin) (← IO.getStdout)
  else
    IO.println (Earley.Calculator.answer (String.intercalate " " args))
  return 0
