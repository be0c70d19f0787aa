import StackScript.Instruction
import StackScript.Program
import StackScript.Text.Json
import StackScript.Text.Quoted
import StackScript.Text.Record

set_option autoImplicit false

namespace StackScript

def Span.json (span : Span) : Json :=
  .object [("start", .number span.start), ("end", .number span.stop)]

namespace Expr

def json : Expr → Json
  | number span value => .tagged "Number" (.array [span.json, .number value])
  | identifier span name => .tagged "Identifier" (.array [span.json, .string name])
  | binary span operator left right =>
    .tagged "Binary" (.object [("span", span.json), ("op", .string operator.name),
      ("left", left.json), ("right", right.json)])
  | unaryCall span builtin argument =>
    .tagged "Builtin1" (.object [("span", span.json), ("name", .string builtin.name),
      ("arg", argument.json)])
  | binaryCall span builtin first second =>
    .tagged "Builtin2" (.object [("span", span.json), ("name", .string builtin.name),
      ("arg1", first.json), ("arg2", second.json)])

end Expr

def Statement.json : Statement → Json
  | define span name value =>
    .tagged "Define" (.object [("span", span.json), ("name", .string name), ("value", value.json)])
  | expression span value =>
    .tagged "Expr" (.object [("span", span.json), ("expr", value.json)])

def Program.json (program : Program) : Json :=
  .object [("statements", .array (program.statements.map Statement.json))]

def Slot.json : Slot → Json
  | scratch => .string "Scratch"
  | named name => .tagged "Named" (.string name)

def Instruction.json : Instruction → Json
  | declare slot => .tagged "DeclareLocal" slot.json
  | const value => .tagged "Const" (.number value.toInt)
  | get slot => .tagged "LocalGet" slot.json
  | set slot => .tagged "LocalSet" slot.json
  | arith operator => .tagged "Arith" (.string operator.name)
  | call builtin => .tagged "Call" (.string builtin.name)

def Code.json (code : Code) : Json :=
  .object [("instrs", .array (code.map Instruction.json)), ("wasm_source", .string code.text)]

def Span.record (span : Span) : Record :=
  .fields "Span" [("start", .atom (toString span.start)), ("end", .atom (toString span.stop))]

def Builtin.record : Builtin → Record
  | abs => .atom "Abs"
  | print => .atom "Print"
  | max => .atom "Max"
  | min => .atom "Min"
  | pow => .atom "Pow"

def Record.quoted (text : String) : Record :=
  .atom (String.ofList (Text.quote text.toList))

namespace Expr

def record : Expr → Record
  | number span value => .items "Number" [span.record, .atom (toString value)]
  | identifier span name => .items "Identifier" [span.record, .quoted name]
  | binary span operator left right =>
    .fields "Binary" [("span", span.record), ("op", .atom operator.name), ("left", left.record),
      ("right", right.record)]
  | unaryCall span builtin argument =>
    .fields "Builtin1" [("span", span.record), ("name", builtin.record), ("arg", argument.record)]
  | binaryCall span builtin first second =>
    .fields "Builtin2" [("span", span.record), ("name", builtin.record), ("arg1", first.record),
      ("arg2", second.record)]

end Expr

def Statement.record : Statement → Record
  | define span name value =>
    .fields "Define" [("span", span.record), ("name", .quoted name), ("value", value.record)]
  | expression span value => .fields "Expr" [("span", span.record), ("expr", value.record)]

end StackScript
