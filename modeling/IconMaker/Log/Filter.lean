import IconMaker.Log.Event
import IconMaker.Text.PatternNotation

/-
  IconMaker.Log.Filter — which events are reported.

  A filter is a list of directives, separated by commas: `level`, `target`, `target=level`,
  `target[span]=level`, `target[span{field}]=level`, `target[span{field=value}]=level`. A
  directive without a span and without a value is about the events whose source begins with
  its target and that have its field; of those that fit, the one with the longest target
  decides. A directive with a span or a field is about all events inside such a span; one that
  lets the event through is enough. A value is a count or a pattern for the whole text of the
  field. Of two directives that differ in the level alone the later one counts.

  Blanks around a directive are not cut away. Behind a name or a level they belong to it, in
  front they make a directive that is about no event and in which no level may be written.
-/

namespace IconMaker.Log

/-- What a field's value has to be. -/
inductive Wanted where
  | count (n : Nat)
  | matching (p : Text.Pattern)
  deriving DecidableEq, Repr

namespace Wanted

def maxCount : Nat := 2 ^ 64

def parse? (s : List Char) : Option Wanted :=
  match Size.numeral? maxCount s with
  | some n => some (count n)
  | none => (Text.Pattern.parse? s).map matching

def admits : Wanted → Value → Bool
  | count n, .count m => n == m
  | matching p, .text s => p.matchesAll s
  | _, _ => false

end Wanted

/-- A field that has to be there, and the value it has to have. -/
structure FieldTest where
  name : List Char
  value : Option Wanted
  deriving DecidableEq, Repr

structure Directive where
  /-- How the source begins; empty for any source. -/
  target : List Char
  span : Option (List Char)
  field : Option FieldTest
  /-- The highest level let through. -/
  level : Option Level
  deriving DecidableEq, Repr

def lower (s : List Char) : List Char := s.map Char.toLower

/-- A level by its number or its name, in capitals or not; 0 and `off` are none. -/
def levelNamed? (s : List Char) : Option (Option Level) :=
  match Size.numeral? Wanted.maxCount s with
  | some n => if n = 0 then some none else (Level.all.find? fun l => l.rank == n).map some
  | none =>
    if lower s = "off".toList then some none
    else (Level.all.find? fun l => lower l.name.toList == lower s).map some

namespace Directive

/-- May a directive begin so? -/
def begins (c : Char) : Bool := Text.isLetterOrNumber c || c == '-' || c == ':' || c == '_'

/-- The directive with a level after `=`; all levels if none is written. -/
def leveled (d : Option Level → Directive) (s : List Char) : Option Directive :=
  if s = [] then some (d (some .trace)) else (levelNamed? s).map d

/-- What may follow the brackets: a level, or nothing but blanks. -/
def ended (d : Option Level → Directive) : List Char → Option Directive
  | [] => some (d (some .trace))
  | c :: r =>
    if c = '=' then leveled d r
    else if (c :: r).all Text.isBlank then some (d (some .trace))
    else none

/-- A field and, between the first `=` and the second, its value. -/
def fieldOf (s : List Char) : Option FieldTest :=
  match s.span (· ≠ '=') with
  | (name, []) => some ⟨name, none⟩
  | (name, _ :: r) => (Wanted.parse? (r.takeWhile (· ≠ '='))).map fun v => ⟨name, some v⟩

/-- From behind the opening bracket on. -/
def bracketed (target s : List Char) : Option Directive :=
  match s.span (fun c => c ≠ ']' ∧ c ≠ '{') with
  | (_, []) => none
  | (name, c :: r) =>
    if c = ']' then ended (⟨target, some name, none, ·⟩) r
    else
      match r.span (· ≠ '}') with
      | (f, _ :: ']' :: r') =>
        if f = [] then none
        else
          match fieldOf f with
          | none => none
          | some t => ended (⟨target, if name = [] then none else some name, some t, ·⟩) r'
      | _ => none

/-- A directive without a blank in front. -/
def flush : List Char → Option Directive
  | [] => none
  | c :: r =>
    if c = '[' then bracketed [] r
    else if begins c then
      match (c :: r).span (fun c => c ≠ '=' ∧ c ≠ '[') with
      | (name, []) =>
        match levelNamed? name with
        | some l => some ⟨[], none, none, l⟩
        | none => some ⟨name, none, none, some .trace⟩
      | (name, c :: r) =>
        if c = '=' then leveled (⟨name, none, none, ·⟩) r else bracketed name r
    else none

/-- Is there a level behind the name, or behind the brackets? -/
def hasLevel (s : List Char) : Bool := (s.reverse.takeWhile (· ≠ ']')).contains '='

/-- Behind a blank the whole text is the target, and no source begins so. -/
def parse? (s : List Char) : Option Directive :=
  let t := s.dropWhile Text.isBlank
  if t.length = s.length then flush s
  else if hasLevel t then none
  else (flush t).map fun d => { d with target := s }

def allows (d : Directive) (e : Event) : Bool :=
  match d.level with
  | some l => e.message.level.rank ≤ l.rank
  | none => false

def hasSource (d : Directive) (source : String) : Bool := d.target.isPrefixOf source.toList

/-- Is the directive about the event by its source? -/
def concerns (d : Directive) (e : Event) : Bool :=
  d.span.isNone && d.hasSource e.message.source
    && d.field.all fun t => t.value.isNone && e.message.fields.any fun f => f.toList == t.name

/-- Does the span have the field, with the value? -/
def finds (s : Span) (t : FieldTest) : Bool :=
  s.fields.any fun f => f.1.toList == t.name && t.value.all (·.admits f.2)

/-- Is the directive about what happens in the span? -/
def covers (d : Directive) (s : Span) : Bool :=
  (d.span.isSome || d.field.isSome) && d.hasSource s.source
    && (d.span.all fun n => n == s.name.toList) && d.field.all (finds s)

/-- Do the directives differ in the level alone? -/
def sameBut (d e : Directive) : Bool := d.target == e.target && d.span == e.span && d.field == e.field

/-- Does `d` decide rather than `e`, which was written before it? -/
def overrules (d e : Directive) : Bool :=
  let name (d : Directive) := Text.utf8 ((d.field.map (·.name)).getD [])
  if d.target.length = e.target.length then name e ≤ name d else e.target.length < d.target.length

end Directive

structure Filter where
  directives : List Directive
  deriving DecidableEq, Repr

namespace Filter

def ofLevel (l : Level) : Filter := ⟨[⟨[], none, none, some l⟩]⟩

/-- The parts between commas. -/
def commaParts : List Char → List (List Char)
  | [] => [[]]
  | c :: r =>
    if c = ',' then [] :: commaParts r
    else
      match commaParts r with
      | p :: ps => (c :: p) :: ps
      | [] => [[c]]

/-- Without the directives that a later one replaces. -/
def current : List Directive → List Directive
  | [] => []
  | d :: r => if r.any d.sameBut then current r else d :: current r

/-- Without any directive, errors are let through. -/
def parse? (s : List Char) : Option Filter :=
  match ((commaParts s).filter (· ≠ [])).mapM Directive.parse? with
  | none => none
  | some [] => some (ofLevel .error)
  | some ds => some ⟨current ds⟩

/-- The filter that an environment variable asks for. -/
def ofVariable (v : Option Bytes) : Filter :=
  ((v.bind Text.text?).bind parse?).getD (ofLevel .info)

/-- The directive that decides about an event by its source. -/
def deciding? (f : Filter) (e : Event) : Option Directive :=
  (f.directives.filter (·.concerns e)).foldl
    (fun best d =>
      match best with
      | none => some d
      | some b => if d.overrules b then some d else some b)
    none

def reports (f : Filter) (e : Event) : Bool :=
  (e.spans.any fun s => f.directives.any fun d => d.covers s && d.allows e)
    || (f.deciding? e).any (·.allows e)

end Filter

end IconMaker.Log
