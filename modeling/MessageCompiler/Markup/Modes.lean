/-
What a token means.

Each mode has a function that takes a token and either deals with it or hands it on, possibly changed, to
be looked at again. A token may stand for others that were left out; those are dealt with by `run`, which
is passed in.
-/
import MessageCompiler.Markup.Formatting
import MessageCompiler.Markup.Token

namespace MessageCompiler.Markup

/-- What becomes of a token with the comments `new`. -/
inductive Step (comments new : List String) where
  /-- It has been dealt with. -/
  | done (b : Builder (new ++ comments))
  /-- The token `t` is looked at in its place. -/
  | again (b : Builder comments) (t : Token) (h : t.comments.Sublist new)

namespace Builder

variable {cs new : List String}

/-- A token that is no comment has been dealt with. -/
def done (b : Builder cs) : Step cs [] := .done b

def again (b : Builder cs) (t : Token) : Step cs t.comments := .again b t (.refl _)

def ignore (b : Builder cs) : Step cs new := .done (b.relax (List.sublist_append_right new cs))

abbrev Run (comments : List String) := (t : Token) → Builder comments → Builder (t.comments ++ comments)

def isTextBlank (c : Char) : Bool := isTagBlank c

def addRaw (b : Builder cs) (tag : String) (attrs : List Attr) : Builder cs :=
  { b.addTag tag attrs with resume := b.mode, mode := .text }

/-- Opens a template, unless SVG or MathML is around it: then nothing that follows counts. -/
def openTemplate (b : Builder cs) (attrs : List Attr) : Builder cs :=
  if b.stack.any fun id => b.ns id != .html then { b with mode := .ignoring }
  else
    { (b.addTag "template" attrs).addBorder with
      mode := .template, templates := .template :: b.templates }

def leaveTemplate (b : Builder cs) : Builder cs :=
  let b := b.impliedEnds ""
  let rest := (b.stack.dropWhile fun id => !(b.ns id == .html && b.tag id == "template")).drop 1
  let b := { b with stack := rest }.dropToBorder
  { b with templates := b.templates.drop 1 }.resetMode

def closeTemplate (b : Builder cs) : Builder cs := if b.isOpen "template" then b.leaveTemplate else b

def startHead (b : Builder cs) (tag : String) (attrs : List Attr) : Builder cs :=
  if tag == "template" then b.openTemplate attrs
  else if ["script", "title", "noframes", "style"].contains tag then b.addRaw tag attrs
  else b.addVoid tag attrs

/-! ### Content -/

def dropNewline (s : List Char) : List Char :=
  let s := match s with
    | '\r' :: s => s
    | s => s
  match s with
  | '\n' :: s => s
  | s => s

def textInBody (b : Builder cs) (s : List Char) : Builder cs :=
  let s :=
    if (b.topTag == "pre" || b.topTag == "listing") && (b.tree.children b.top).isEmpty then
      dropNewline s
    else s
  let s := s.filter (·.toNat != 0)
  if s.isEmpty then b else b.reopen.addText s

/-- Closes an open list item; other blocks are in the way. -/
def closeItemIn (b : Builder cs) (tags : List String) : List Nat → Option (List Nat)
  | [] => none
  | id :: rest =>
    if tags.contains (b.tag id) then some rest
    else if ["address", "div", "p"].contains (b.tag id) || !isSpecial (b.ns id) (b.tag id) then
      b.closeItemIn tags rest
    else none

def closeItem (b : Builder cs) (tags : List String) : Builder cs :=
  { b with stack := (b.closeItemIn tags b.stack).getD b.stack }

def closeParagraph (b : Builder cs) : Builder cs := b.close .button ["p"]

def closeLink (b : Builder cs) : Builder cs :=
  match b.sinceBorder.find? fun id => b.tag id == "a" with
  | some link =>
    let b := b.endFormatting "a"
    { b with stack := b.stack.erase link }.forget link
  | none => b

def startForm (b : Builder cs) (attrs : List Attr) : Builder cs :=
  let inTemplate := b.isOpen "template"
  if b.form.isSome && !inTemplate then b
  else
    let b := b.closeParagraph.addTag "form" attrs
    if inTemplate then b else { b with form := some b.top }

def startForeign (b : Builder cs) (ns : Namespace) (tag : String) (attrs : List Attr)
    (selfClosing : Bool) : Builder cs :=
  let b := b.addElement ns tag (attrs.map (adjustAttr ns))
  if selfClosing then b.pop else b

/-- A search field, the way it was written before forms. -/
def startIsindex (run : Run cs) (b : Builder cs) (attrs : List Attr) : Builder cs :=
  if b.form.isSome then b
  else
    let value := fun key => (attrs.reverse.find? (·.key == key)).map (·.value)
    let others := attrs.filter fun a => !(["action", "name", "prompt"].contains a.key)
    let b := run (.start "form" [] false) b.closeParagraph
    match b.form with
    | none => b
    | some form =>
      let action := (value "action").getD ""
      let b :=
        if action.isEmpty then b
        else { b with tree := b.tree.setContent form (.element .html "form" [⟨"", "action", action⟩]) }
      let b := run (.start "hr" [] false) b
      let b := run (.start "label" [] false) b
      let prompt :=
        (value "prompt").getD "This is a searchable index. Enter search keywords: "
      let b := (b.addText prompt.toList).addVoid "input" (⟨"", "name", "isindex"⟩ :: others)
      let b := run (.stop "label") b
      let b := run (.start "hr" [] false) b
      run (.stop "form") b

def startInBody (run : Run cs) (b : Builder cs) (tag : String) (attrs : List Attr)
    (selfClosing : Bool) : Step cs [] :=
  if headTags.contains tag then (b.startHead tag attrs).done
  else if ["html", "body", "frameset"].contains tag || misplacedTags.contains tag then b.done
  else if blockTags.contains tag then (b.closeParagraph.addTag tag attrs).done
  else if headingTags.contains tag then
    let b := b.closeParagraph
    let b := if headingTags.contains b.topTag then b.pop else b
    (b.addTag tag attrs).done
  else if ["pre", "listing", "plaintext"].contains tag then (b.closeParagraph.addTag tag attrs).done
  else if tag == "form" then (b.startForm attrs).done
  else if tag == "li" then ((b.closeItem ["li"]).closeParagraph.addTag tag attrs).done
  else if tag == "dd" || tag == "dt" then
    ((b.closeItem ["dd", "dt"]).closeParagraph.addTag tag attrs).done
  else if tag == "button" then ((b.close .usual ["button"]).reopen.addTag tag attrs).done
  else if tag == "a" then (b.closeLink.reopen.addFormatting tag attrs).done
  else if formattingTags.contains tag then (b.reopen.addFormatting tag attrs).done
  else if tag == "nobr" then
    let b := b.reopen
    let b := if b.inScope .usual ["nobr"] then (b.endFormatting "nobr").reopen else b
    (b.addFormatting tag attrs).done
  else if ["applet", "marquee", "object"].contains tag then (b.reopen.addTag tag attrs).addBorder.done
  else if tag == "table" then { b.closeParagraph.addTag tag attrs with mode := .table }.done
  else if ["area", "br", "embed", "img", "input", "keygen", "wbr"].contains tag then
    (b.reopen.addVoid tag attrs).done
  else if ["param", "source", "track"].contains tag then (b.addVoid tag attrs).done
  else if tag == "hr" then (b.closeParagraph.addVoid tag attrs).done
  else if tag == "image" then b.again (.start "img" attrs selfClosing)
  else if tag == "isindex" then (b.startIsindex run attrs).done
  else if ["textarea", "iframe", "noembed", "noscript"].contains tag then (b.addRaw tag attrs).done
  else if tag == "xmp" then (b.closeParagraph.reopen.addRaw tag attrs).done
  else if tag == "select" then { b.reopen.addTag tag attrs with mode := .select }.done
  else if tag == "optgroup" || tag == "option" then
    let b := if b.topTag == "option" then b.pop else b
    (b.reopen.addTag tag attrs).done
  else if tag == "rb" || tag == "rtc" then
    let b := if b.inScope .usual ["ruby"] then b.impliedEnds "" else b
    (b.addTag tag attrs).done
  else if tag == "rp" || tag == "rt" then
    let b := if b.inScope .usual ["ruby"] then b.impliedEnds "rtc" else b
    (b.addTag tag attrs).done
  else if tag == "math" then (b.reopen.startForeign .math tag attrs selfClosing).done
  else if tag == "svg" then (b.reopen.startForeign .svg tag attrs selfClosing).done
  else (b.reopen.addTag tag attrs).done

def endForm (b : Builder cs) : Builder cs :=
  let found := b.findIn .usual ["form"] b.stack
  if b.isOpen "template" then
    if found.isSome then (b.impliedEnds "").close .usual ["form"] else b
  else
    let form := b.form
    let b := { b with form := none }
    match form, found with
    | some f, some (id :: _) =>
      if f == id then
        let b := b.impliedEnds ""
        { b with stack := b.stack.erase f }
      else b
    | _, _ => b

def endInBody (run : Run cs) (b : Builder cs) (tag : String) : Step cs [] :=
  if tag == "body" || tag == "html" then b.done
  else if closableTags.contains tag then (b.close .usual [tag]).done
  else if tag == "form" then b.endForm.done
  else if tag == "p" then
    let b := if b.inScope .button ["p"] then b else run (.start "p" [] false) b
    b.closeParagraph.done
  else if tag == "li" then (b.close .listItem ["li"]).done
  else if tag == "dd" || tag == "dt" then (b.close .usual [tag]).done
  else if headingTags.contains tag then (b.close .usual headingTags).done
  else if formattingTags.contains tag || tag == "a" || tag == "nobr" then (b.endFormatting tag).done
  else if ["applet", "marquee", "object"].contains tag then
    match b.close? .usual [tag] with
    | some b => b.dropToBorder.done
    | none => b.done
  else if tag == "br" then b.again (.start "br" [] false)
  else if tag == "template" then b.closeTemplate.done
  else (b.endOther tag).done

def inBody (run : Run cs) (t : Token) (b : Builder cs) : Step cs t.comments :=
  match t with
  | .text s => (b.textInBody s).done
  | .start tag attrs selfClosing => b.startInBody run tag attrs selfClosing
  | .stop tag => b.endInBody run tag
  | .comment s => .done (b.addComment s)
  | .doctype => b.done
  | .eof => if b.templates.isEmpty then b.done else { b with mode := .template }.again .eof

/-- A token in an element whose content is not markup. -/
def inText (t : Token) (b : Builder cs) : Step cs t.comments :=
  match t with
  | .text s =>
    let s :=
      if b.topTag == "textarea" && (b.tree.children b.top).isEmpty then dropNewline s else s
    (b.addText s).done
  | .stop _ => { b.pop with mode := b.resume }.done
  | .eof => { b.pop with mode := b.resume }.again .eof
  | t => { b with mode := b.resume }.again t

/-! ### Tables -/

def isHiddenInput (attrs : List Attr) : Bool :=
  attrs.any fun a => a.key == "type" && Text.lower a.value == "hidden"

/-- A token that does not belong into a table: what it adds goes in front of the table. -/
def inBodyFostered (run : Run cs) (t : Token) (b : Builder cs) : Step cs t.comments :=
  match inBody run t { b with fostering := true } with
  | .done b => .done { b with fostering := false }
  | .again b t h => .again { b with fostering := false } t h

def startSelectInTable (b : Builder cs) (attrs : List Attr) : Builder cs :=
  { b.reopen.addTag "select" attrs with mode := .selectInTable }

def startInTable (run : Run cs) (b : Builder cs) (tag : String) (attrs : List Attr)
    (selfClosing : Bool) : Step cs [] :=
  let token := Token.start tag attrs selfClosing
  if tag == "caption" then
    { b.clearToTable.addBorder.addTag tag attrs with mode := .caption }.done
  else if tag == "colgroup" then { b.clearToTable.addTag tag attrs with mode := .columnGroup }.done
  else if tag == "col" then (run (.start "colgroup" [] false) b).again token
  else if ["tbody", "tfoot", "thead"].contains tag then
    { b.clearToTable.addTag tag attrs with mode := .tableBody }.done
  else if ["td", "th", "tr"].contains tag then (run (.start "tbody" [] false) b).again token
  else if tag == "table" then
    match b.close? .table ["table"] with
    | some b => b.resetMode.again token
    | none => b.done
  else if ["style", "script", "template"].contains tag then (b.startHead tag attrs).done
  else if tag == "input" && isHiddenInput attrs then (b.addVoid tag attrs).done
  else if tag == "form" then
    if b.isOpen "template" || b.form.isSome then b.done
    else
      let b := b.addTag tag attrs
      { b with form := some b.top }.pop.done
  else if tag == "select" then
    let b := b.reopen
    let b := { b with fostering := true }.addTag tag attrs
    { b with fostering := false, mode := .selectInTable }.done
  else inBodyFostered run token b

def inTable (run : Run cs) (t : Token) (b : Builder cs) : Step cs t.comments :=
  match t with
  | .text s =>
    let s := s.filter (·.toNat != 0)
    if tableTags.contains b.topTag && s.all isTextBlank then (b.addText s).done
    else inBodyFostered run (.text s) b
  | .start tag attrs selfClosing => b.startInTable run tag attrs selfClosing
  | .stop tag =>
    if tag == "table" then
      match b.close? .table ["table"] with
      | some b => b.resetMode.done
      | none => b.done
    else if ["body", "caption", "col", "colgroup", "html", "tbody", "td", "tfoot", "th", "thead",
        "tr"].contains tag then
      b.done
    else if tag == "template" then b.closeTemplate.done
    else inBodyFostered run (.stop tag) b
  | .comment s => .done (b.addComment s)
  | .doctype => b.done
  | .eof => inBody run .eof b

def closeCaption? (b : Builder cs) : Option (Builder cs) :=
  (b.close? .table ["caption"]).map fun b => { b.dropToBorder with mode := .table }

def inCaption (run : Run cs) (t : Token) (b : Builder cs) : Step cs t.comments :=
  match t with
  | .start tag attrs closed =>
    if ["caption", "col", "colgroup", "tbody", "td", "tfoot", "thead", "tr"].contains tag then
      match b.closeCaption? with
      | some b => b.again (.start tag attrs closed)
      | none => b.done
    else if tag == "select" then (b.startSelectInTable attrs).done
    else inBody run (.start tag attrs closed) b
  | .stop tag =>
    if tag == "caption" then (b.closeCaption?.getD b).done
    else if tag == "table" then
      match b.closeCaption? with
      | some b => b.again (.stop tag)
      | none => b.done
    else if ["body", "col", "colgroup", "html", "tbody", "td", "tfoot", "th", "thead",
        "tr"].contains tag then
      b.done
    else inBody run (.stop tag) b
  | t => inBody run t b

def leaveColumns (b : Builder cs) (t : Token) : Step cs t.comments :=
  if b.topTag == "colgroup" then { b.pop with mode := .table }.again t else b.ignore

def inColumnGroup (run : Run cs) (t : Token) (b : Builder cs) : Step cs t.comments :=
  match t with
  | .text s =>
    let b := b.addText (s.takeWhile isTextBlank)
    let s := s.dropWhile isTextBlank
    if s.isEmpty then b.done else b.leaveColumns (.text s)
  | .comment s => .done (b.addComment s)
  | .doctype => b.done
  | .start tag attrs closed =>
    if tag == "html" then b.done
    else if tag == "col" then (b.addVoid tag attrs).done
    else if tag == "template" then (b.startHead tag attrs).done
    else b.leaveColumns (.start tag attrs closed)
  | .stop tag =>
    if tag == "colgroup" then
      (if b.topTag == "colgroup" then { b.pop with mode := .table } else b).done
    else if tag == "col" then b.done
    else if tag == "template" then b.closeTemplate.done
    else b.leaveColumns (.stop tag)
  | .eof => inBody run .eof b

def inTableBody (run : Run cs) (t : Token) (b : Builder cs) : Step cs t.comments :=
  let leave := fun t : Token =>
    match b.close? .table ["tbody", "thead", "tfoot"] with
    | some b => { b with mode := .table }.again t
    | none => b.ignore
  match t with
  | .start tag attrs closed =>
    if tag == "tr" then { b.clearToTableBody.addTag tag attrs with mode := .row }.done
    else if tag == "td" || tag == "th" then (run (.start "tr" [] false) b).again (.start tag attrs closed)
    else if ["caption", "col", "colgroup", "tbody", "tfoot", "thead"].contains tag then leave (.start tag attrs closed)
    else inTable run (.start tag attrs closed) b
  | .stop tag =>
    if ["tbody", "tfoot", "thead"].contains tag then
      if b.inScope .table [tag] then { b.clearToTableBody.pop with mode := .table }.done else b.done
    else if tag == "table" then leave (.stop tag)
    else if ["body", "caption", "col", "colgroup", "html", "td", "th", "tr"].contains tag then b.done
    else inTable run (.stop tag) b
  | .comment s => .done (b.addComment s)
  | t => inTable run t b

def inRow (run : Run cs) (t : Token) (b : Builder cs) : Step cs t.comments :=
  let leave := { b.clearToRow.pop with mode := .tableBody }
  match t with
  | .start tag attrs closed =>
    if tag == "td" || tag == "th" then
      { (b.clearToRow.addTag tag attrs).addBorder with mode := .cell }.done
    else if ["caption", "col", "colgroup", "tbody", "tfoot", "thead", "tr"].contains tag then
      if b.inScope .table ["tr"] then leave.again (.start tag attrs closed) else b.done
    else inTable run (.start tag attrs closed) b
  | .stop tag =>
    if tag == "tr" then if b.inScope .table ["tr"] then leave.done else b.done
    else if tag == "table" then if b.inScope .table ["tr"] then leave.again (.stop tag) else b.done
    else if ["tbody", "tfoot", "thead"].contains tag then
      if b.inScope .table [tag] && b.inScope .table ["tr"] then leave.again (.stop tag) else b.done
    else if ["body", "caption", "col", "colgroup", "html", "td", "th"].contains tag then b.done
    else inTable run (.stop tag) b
  | t => inTable run t b

def closeCell? (b : Builder cs) (tags : List String) : Option (Builder cs) :=
  (b.close? .table tags).map fun b => { b.dropToBorder with mode := .row }

def inCell (run : Run cs) (t : Token) (b : Builder cs) : Step cs t.comments :=
  match t with
  | .start tag attrs closed =>
    if ["caption", "col", "colgroup", "tbody", "td", "tfoot", "th", "thead", "tr"].contains tag then
      match b.closeCell? ["td", "th"] with
      | some b => b.again (.start tag attrs closed)
      | none => b.done
    else if tag == "select" then (b.startSelectInTable attrs).done
    else inBody run (.start tag attrs closed) b
  | .stop tag =>
    if tag == "td" || tag == "th" then ((b.closeCell? [tag]).getD b).done
    else if ["body", "caption", "col", "colgroup", "html"].contains tag then b.done
    else if tableTags.contains tag then
      if b.inScope .table [tag] then
        ((b.closeCell? ["td", "th"]).getD { b with mode := .row }).again (.stop tag)
      else b.done
    else inBody run (.stop tag) b
  | t => inBody run t b

/-! ### Selection lists and templates -/

def closeSelect (b : Builder cs) : Builder cs :=
  match b.close? .select ["select"] with
  | some b => b.resetMode
  | none => b

def popOption (b : Builder cs) : Builder cs := if b.topTag == "option" then b.pop else b

def inSelect (run : Run cs) (t : Token) (b : Builder cs) : Step cs t.comments :=
  match t with
  | .text s => (b.addText (s.filter (·.toNat != 0))).done
  | .start tag attrs closed =>
    if tag == "option" then (b.popOption.addTag tag attrs).done
    else if tag == "optgroup" then
      let b := b.popOption
      let b := if b.topTag == "optgroup" then b.pop else b
      (b.addTag tag attrs).done
    else if tag == "select" then b.closeSelect.done
    else if ["input", "keygen", "textarea"].contains tag then
      if b.inScope .select ["select"] then (run (.stop "select") b).again (.start tag attrs closed)
      else { b with plainNext := true }.done
    else if tag == "script" || tag == "template" then (b.startHead tag attrs).done
    else if ["iframe", "noembed", "noframes", "noscript", "style", "title"].contains tag then
      { b with plainNext := true }.done
    else b.done
  | .stop tag =>
    if tag == "option" then b.popOption.done
    else if tag == "optgroup" then
      let inner := b.popOption
      (if inner.topTag == "optgroup" then inner.pop else b).done
    else if tag == "select" then b.closeSelect.done
    else if tag == "template" then b.closeTemplate.done
    else b.done
  | .comment s => .done (b.addComment s)
  | .doctype => b.done
  | .eof => inBody run .eof b

/-- The tag of a part of a table, which ends a selection list inside the table. -/
def endsSelect (b : Builder cs) : Token → Bool
  | .start tag _ _ => tableParts.contains tag
  | .stop tag => tableParts.contains tag && b.inScope .table [tag]
  | _ => false
where
  tableParts : List String := ["caption", "table", "tbody", "tfoot", "thead", "tr", "td", "th"]

/-- Whether an end tag of a part of a table has nothing to close. -/
def strayTableEnd (b : Builder cs) : Token → Bool
  | .stop tag => endsSelect.tableParts.contains tag && !b.inScope .table [tag]
  | _ => false

def inSelectInTable (run : Run cs) (t : Token) (b : Builder cs) : Step cs t.comments :=
  if b.strayTableEnd t then b.ignore
  else if b.endsSelect t then
    let rest :=
      if b.stack.any fun id => b.tag id == "select" then
        (b.stack.dropWhile fun id => b.tag id != "select").drop 1
      else b.stack
    { b with stack := rest }.resetMode.again t
  else inSelect run t b

/-- Goes on with another mode inside the innermost template. -/
def switchTemplate (b : Builder cs) (mode : Mode) (t : Token) : Step cs t.comments :=
  { b with templates := mode :: b.templates.drop 1, mode := mode }.again t

def inTemplate (run : Run cs) (t : Token) (b : Builder cs) : Step cs t.comments :=
  match t with
  | .start tag attrs closed =>
    if headTags.contains tag then (b.startHead tag attrs).done
    else if ["caption", "colgroup", "tbody", "tfoot", "thead"].contains tag then
      b.switchTemplate .table (.start tag attrs closed)
    else if tag == "col" then b.switchTemplate .columnGroup (.start tag attrs closed)
    else if tag == "tr" then b.switchTemplate .tableBody (.start tag attrs closed)
    else if tag == "td" || tag == "th" then b.switchTemplate .row (.start tag attrs closed)
    else b.switchTemplate .body (.start tag attrs closed)
  | .stop tag => (if tag == "template" then b.closeTemplate else b).done
  | .eof => if b.isOpen "template" then b.leaveTemplate.again .eof else b.done
  | t => inBody run t b

def byMode (run : Run cs) (t : Token) (b : Builder cs) : Step cs t.comments :=
  match b.mode with
  | .body => inBody run t b
  | .text => inText t b
  | .table => inTable run t b
  | .caption => inCaption run t b
  | .columnGroup => inColumnGroup run t b
  | .tableBody => inTableBody run t b
  | .row => inRow run t b
  | .cell => inCell run t b
  | .select => inSelect run t b
  | .selectInTable => inSelectInTable run t b
  | .template => inTemplate run t b
  | .ignoring => b.ignore

/-! ### SVG and MathML -/

/-- Whether the token belongs to the SVG or MathML around it. -/
def isForeign (t : Token) (b : Builder cs) : Bool :=
  let ns := b.ns b.top
  let tag := b.topTag
  let isStart := match t with
    | .start .. => true
    | _ => false
  let isText := match t with
    | .text _ => true
    | _ => false
  let named := fun name => match t with
    | .start tag _ _ => tag == name
    | _ => false
  if ns == .html || t == .eof then false
  else if isMathText ns tag && (isText || (isStart && !named "mglyph" && !named "malignmark")) then
    false
  else if ns == .math && tag == "annotation-xml" && named "svg" then false
  else !(isHtmlText ns tag (b.attrs b.top) && (isStart || isText))

/-- The open elements after an end tag in SVG or MathML, or `none` if plain markup is around it. -/
def endForeignIn (b : Builder cs) (tag : String) : List Nat → Option (List Nat)
  | [] => some b.stack
  | id :: rest =>
    if b.ns id == .html then none
    else if Text.lower (b.tag id) == Text.lower tag then some rest
    else b.endForeignIn tag rest

def inForeign (run : Run cs) (t : Token) (b : Builder cs) : Step cs t.comments :=
  match t with
  | .text s => (b.addText (replaceNul s)).done
  | .comment s => .done (b.addComment s)
  | .start tag attrs selfClosing =>
    let ns := b.ns b.top
    let b := b.startForeign ns (adjustTag ns tag) attrs selfClosing
    { b with plainNext := true }.done
  | .stop tag =>
    match b.endForeignIn tag b.stack with
    | some stack => { b with stack }.done
    | none => byMode run (.stop tag) b
  | _ => b.ignore

def look (run : Run cs) (t : Token) (b : Builder cs) : Step cs t.comments :=
  if isForeign t b then inForeign run t b else byMode run t b

def run : (fuel : Nat) → Run cs
  | 0, _, b => b.relax (List.sublist_append_right _ cs)
  | fuel + 1, t, b =>
    match look (run fuel) t b with
    | .done b => b
    | .again b t' h => (run fuel t' b).relax (h.append (.refl cs))

/-- Deals with a token. A token is looked at again only after elements were closed or a mode was left,
so the number of open elements bounds the looks. -/
def process (t : Token) (b : Builder cs) : Builder (t.comments ++ cs) :=
  run (4 * (b.stack.length + b.templates.length) + 32) t b

end Builder

end MessageCompiler.Markup
