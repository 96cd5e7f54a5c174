import Scaffold.Declaration.Basic
import Scaffold.Token.Dump

/-!
# Dumps of programs

A program is shown as a JSON document or as a record.
-/
namespace Scaffold

def Param.toJson (p : Param) : Json := .object [("ty", .text p.type), ("name", .text p.name)]

def Param.toRecord (p : Param) : Record :=
  .fields "Param" [("ty", .ofString p.type), ("name", .ofString p.name)]

def Include.toJson (i : Include) : Json := .object [("library", .text i.library)]

def Include.toRecord (i : Include) : Record :=
  .fields "IncludeDecl" [("library", .ofString i.library)]

def Function.toJson (f : Function) : Json :=
  .object [("return_type", .text f.returnType), ("name", .text f.name),
    ("params", .array (f.params.map Param.toJson)), ("body", .array (f.body.map nofun))]

def Function.toRecord (f : Function) : Record :=
  .fields "FunctionDecl" [("return_type", .ofString f.returnType), ("name", .ofString f.name),
    ("params", .list (f.params.map Param.toRecord)), ("body", .list (f.body.map nofun))]

def Variable.toJson (v : Variable) : Json :=
  .object [("data_type", .text v.type), ("name", .text v.name),
    ("initializer", match v.initializer? with
      | none => .null
      | some value => .text value)]

def Variable.toRecord (v : Variable) : Record :=
  .fields "VariableDecl" [("data_type", .ofString v.type), ("name", .ofString v.name),
    ("initializer", .ofOption .ofString v.initializer?)]

namespace Declaration

def toJson : Declaration → Json
  | inclusion i => .object [("Include", i.toJson)]
  | function f => .object [("Function", f.toJson)]
  | var v => .object [("Variable", v.toJson)]

def toRecord : Declaration → Record
  | inclusion i => .call "Include" [i.toRecord]
  | function f => .call "Function" [f.toRecord]
  | var v => .call "Variable" [v.toRecord]

end Declaration

namespace Program

def toJson (p : Program) : Json :=
  .object [("declarations", .array (p.declarations.map fun d =>
    .object [("node", d.node.toJson), ("span", d.span.toJson)]))]

def toRecord (p : Program) : Record :=
  .fields "Program" [("declarations", .list (p.declarations.map fun d =>
    .fields "Spanned" [("node", d.node.toRecord), ("span", d.span.toRecord)]))]

end Program

end Scaffold
