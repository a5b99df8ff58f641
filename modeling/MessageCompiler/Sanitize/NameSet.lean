/-
Sets of element and attribute names.

Names are compared without regard to case. The sets say which elements and attributes markup inside a
message may bring along, and which attributes carry a URL.
-/
import MessageCompiler.Text.Case
import MessageCompiler.Text.Lines

namespace MessageCompiler

/-- A set of lower-case names. -/
structure NameSet where
  names : List String

namespace NameSet

/-- Whether the lower-case form of the name is in the set. -/
def has (s : NameSet) (name : String) : Bool := s.names.contains (Text.lower name)

def ofCommas (list : String) : NameSet :=
  ⟨(Text.splitOnChar ',' list.toList).map String.ofList⟩

def union (sets : List NameSet) : NameSet := ⟨(sets.flatMap names).eraseDups⟩

def sorted (s : NameSet) : List String :=
  s.names.eraseDups.mergeSort fun a b => decide (a ≤ b)

def voidElements : NameSet := ofCommas "area,br,col,hr,img,wbr"

def optionalEndTagBlockElements : NameSet :=
  ofCommas "colgroup,dd,dt,li,p,tbody,td,tfoot,th,thead,tr"

def optionalEndTagInlineElements : NameSet := ofCommas "rp,rt"

def optionalEndTagElements : NameSet :=
  union [optionalEndTagInlineElements, optionalEndTagBlockElements]

def blockElements : NameSet :=
  union [optionalEndTagBlockElements, ofCommas
    ("address,article,aside,blockquote,caption,center,del,details,dialog,dir,div,dl,figure," ++
      "figcaption,footer,h1,h2,h3,h4,h5,h6,header,hgroup,hr,ins,main,map,menu,nav,ol,pre,section," ++
      "summary,table,ul")]

def inlineElements : NameSet :=
  union [optionalEndTagInlineElements, ofCommas
    ("a,abbr,acronym,audio,b,bdi,bdo,big,br,cite,code,del,dfn,em,font,i,img,ins,kbd,label,map," ++
      "mark,picture,q,ruby,rp,rt,s,samp,small,source,span,strike,strong,sub,sup,time,track,tt,u," ++
      "var,video")]

/-- Every element that markup inside a message may create. -/
def validElements : NameSet :=
  union [voidElements, blockElements, inlineElements, optionalEndTagElements]

def uriAttrs : NameSet :=
  ofCommas "background,cite,href,itemtype,longdesc,poster,src,xlink:href"

/-- Attributes whose value is a list of candidate URLs. -/
def srcsetAttrs : NameSet := ofCommas "srcset"

def htmlAttrs : NameSet := ofCommas
  ("abbr,accesskey,align,alt,autoplay,axis,bgcolor,border,cellpadding,cellspacing,class,clear," ++
    "color,cols,colspan,compact,controls,coords,datetime,default,dir,download,face,headers,height," ++
    "hidden,hreflang,hspace,ismap,itemscope,itemprop,kind,label,lang,language,loop,media,muted," ++
    "nohref,nowrap,open,preload,rel,rev,role,rows,rowspan,rules,scope,scrolling,shape,size,sizes," ++
    "span,srclang,start,summary,tabindex,target,title,translate,type,usemap,valign,value,vspace," ++
    "width")

def ariaAttrs : NameSet := ofCommas
  ("aria-activedescendant,aria-atomic,aria-autocomplete,aria-busy,aria-checked,aria-colcount," ++
    "aria-colindex,aria-colspan,aria-controls,aria-current,aria-describedby,aria-details," ++
    "aria-disabled,aria-dropeffect,aria-errormessage,aria-expanded,aria-flowto,aria-grabbed," ++
    "aria-haspopup,aria-hidden,aria-invalid,aria-keyshortcuts,aria-label,aria-labelledby," ++
    "aria-level,aria-live,aria-modal,aria-multiline,aria-multiselectable,aria-orientation," ++
    "aria-owns,aria-placeholder,aria-posinset,aria-pressed,aria-readonly,aria-relevant," ++
    "aria-required,aria-roledescription,aria-rowcount,aria-rowindex,aria-rowspan,aria-selected," ++
    "aria-setsize,aria-sort,aria-valuemax,aria-valuemin,aria-valuenow,aria-valuetext")

/-- Every attribute whose value markup inside a message may bind. -/
def validAttrs : NameSet := union [uriAttrs, srcsetAttrs, htmlAttrs, ariaAttrs]

def catalogue : List (String × NameSet) := [
  ("AriaAttrs", ariaAttrs),
  ("BlockElements", blockElements),
  ("HTMLAttrs", htmlAttrs),
  ("InlineElements", inlineElements),
  ("OptionalEndTagBlockElements", optionalEndTagBlockElements),
  ("OptionalEndTagElements", optionalEndTagElements),
  ("OptionalEndTagInlineElements", optionalEndTagInlineElements),
  ("SrcsetAttrs", srcsetAttrs),
  ("UriAttrs", uriAttrs),
  ("ValidAttrs", validAttrs),
  ("ValidElements", validElements),
  ("VoidElements", voidElements)]

end NameSet

end MessageCompiler
