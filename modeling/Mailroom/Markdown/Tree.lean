/-! Markdown as a tree: blocks that hold blocks or spans, and spans that hold spans. -/

namespace Mailroom.Markdown

/-- How a reference names its definition. -/
inductive Naming
  /-- By a label of its own. -/
  | full
  /-- By its text, with empty brackets behind it. -/
  | collapsed
  /-- By its text alone. -/
  | bare
deriving DecidableEq, Repr

/-- A span of text. -/
inductive Span
  | text (chars : List Char)
  | code (chars : List Char)
  | html (chars : List Char)
  | lineBreak
  | emphasis (children : List Span)
  | strong (children : List Span)
  | link (target title : List Char) (children : List Span)
  | image (target title description : List Char)
  | linkReference (naming : Naming) (label : List Char) (children : List Span)
  | imageReference (naming : Naming) (label description : List Char)
deriving Repr, Inhabited

/-- A block. -/
inductive Block
  | paragraph (content : List Span)
  | heading (level : Nat) (content : List Span)
  | rule
  | code (language extra : List Char) (chars : List Char)
  | html (chars : List Char)
  | definition (label target title : List Char)
  | quote (children : List Block)
  /-- A list; a numbered one has a first number. -/
  | list (start : Option Nat) (isSpread : Bool) (items : List Block)
  | item (isSpread : Bool) (children : List Block)
deriving Repr, Inhabited

mutual

def Span.content : Span → List Char
  | .text cs => cs
  | .code cs => cs
  | .html cs => cs
  | .lineBreak => []
  | .emphasis children => contents children
  | .strong children => contents children
  | .link _ _ children => contents children
  | .image _ _ description => description
  | .linkReference _ _ children => contents children
  | .imageReference _ _ description => description

def contents : List Span → List Char
  | [] => []
  | s :: ss => s.content ++ contents ss

end

/-- Spans with texts side by side joined, and empty texts left out. -/
def joined : List Span → List Span
  | [] => []
  | s :: ss =>
    match s, joined ss with
    | .text [], rest => rest
    | .text cs, .text others :: rest => .text (cs ++ others) :: rest
    | s, rest => s :: rest

end Mailroom.Markdown
