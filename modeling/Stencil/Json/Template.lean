import Stencil.Draft
import Stencil.Json.Codec
/-!
# Templates

A template is a draft that was read without a fault, with the source it was read from.

As JSON it is written as its name and its source.  It is read back by reading the source again, without tags of one's
own, so a template that needs them is not read back.
-/
namespace Stencil

structure Template where
  name : String
  source : String
  draft : Draft

namespace Template

/-- Reads a template, and tells what happened. -/
def read (name source : String) (tags : Catalog) : Except Fault Template × Report :=
  let (draft, report) := (Draft.fresh name tags).parse source
  match report.transcript.fault with
  | some f => (.error (.parse f), report)
  | none => (.ok ⟨name, source, draft⟩, report)

def render (t : Template) (leave : Bool) : Except Fault String := t.draft.render leave

def renderWhile (t : Template) (leave : Nat → Bool) : Except Fault String := t.draft.renderWhile leave

/-! ## As JSON -/

def fields : List String := ["name", "source"]

def encode (t : Template) : Json := .object [("name", .string t.name), ("source", .string t.source)]

inductive Refusal
  | shape
  | source (f : Fault)

def Refusal.message? : Refusal → Option String
  | shape => none
  | source f => some ("Failed to parse template: " ++ f.message)

def decode (j : Json) : Except Refusal Template :=
  match (j.field? fields "name").bind Json.string?, (j.field? fields "source").bind Json.string? with
  | some name, some source =>
    match (read name source .empty).1 with
    | .ok t => .ok t
    | .error f => .error (.source f)
  | _, _ => .error .shape

end Template

end Stencil
