import Hat.Minilibs.MMessage
import Hat.Minilibs.MParams
import Mathlib.Data.List.Find

/-!
# Routes

A request goes to the first route of the table whose segments are all found in the
segments of its uri.  Literal segments and conditions are regular expressions alike, which
are searched for anywhere in the segment, and a text that is no regular expression is found
everywhere.  The module determines when a request is dispatched as the table intends it,
by whole segments.  The library of regular expressions is a parameter.
-/

namespace Hat

/-- A compiled regular expression: the places of a text, from and to, that it matches. -/
structure Regex where
  places : String → List (ℕ × ℕ)

structure Condition where
  param : String
  regexp : String

/-- A route as its element in the file describes it. -/
structure RouteDesc where
  format : String
  method : String
  conditions : List Condition
  calledMethod : String
  cls : String

structure Route where
  template : NameList
  method : String
  calledMethod : String
  target : String

/-- The handler that is called, or a message that is sent at once. -/
inductive Answer
  | exec (target uri : String) (params : NameList) (calledMethod body : String)
  | message (message : MMessage)
  deriving DecidableEq

namespace RoutingMap

open NameList

/-- The expression that stands for a segment of a path: that of its condition, or itself. -/
def expression (conditions : List Condition) (segment : String) : String :=
  if segment.toList.head? = some ':' then
    ((conditions.find? fun condition => condition.param = segment).map
      Condition.regexp).getD segment
  else segment

def loadClasses : List String := ["archive", "cmdroute", "logroute", "Default"]

/-- A class without an instance is served by the last one. -/
def targetOf (instances : List String) (cls : String) : String :=
  if cls ∈ instances then cls else instances.getLastD ""

def loadRoute (instances : List String) (desc : RouteDesc) : Option Route :=
  (dropEmptyFront (NameList.init [] desc.format '/')).map fun nl =>
    { template := nl.map (expression desc.conditions)
      method := desc.method
      calledMethod := desc.calledMethod
      target := targetOf instances desc.cls }

def load (instances : List String) : List RouteDesc → Option (List Route)
  | [] => some []
  | desc :: rest =>
      (loadRoute instances desc).bind fun route => (load instances rest).map fun routes =>
        route :: routes

variable (regcomp : String → Option Regex)

/-- An expression that cannot be compiled matches everything. -/
def matchRegexp (exp str : String) : Bool :=
  match regcomp exp with
  | some regex => regex.places str ≠ []
  | none => true

def accepts (method : String) (uri : NameList) (route : Route) : Bool :=
  (route.template.length = uri.length ∧ method = route.method) &&
    (route.template.zip uri).all fun pair => matchRegexp regcomp pair.1 pair.2

def notFound : MMessage :=
  (((MMessage.mk2 "*" "*").add "body" "Not Found").add "content" "plain/text")

/-- The call of the handler of a route. -/
def call (uri : String) (params : NameList) (body : String) : Option Route → Answer
  | some route => .exec route.target uri params route.calledMethod body
  | none => .message notFound

def route (routes : List Route) (uri method body : String) : Option Answer :=
  (dropEmptyFront (NameList.init [] uri '/')).map fun params =>
    call uri params body (routes.find? (accepts regcomp method params))

inductive Segment
  | literal (text : String)
  | conditioned (regexp : String)

def segmentOf (conditions : List Condition) (segment : String) : Segment :=
  if segment.toList.head? = some ':' then
    match conditions.find? fun condition => condition.param = segment with
    | some condition => .conditioned condition.regexp
    | none => .literal segment
  else .literal segment

/-- What is searched for in the place of a segment. -/
def Segment.text : Segment → String
  | literal text => text
  | conditioned regexp => regexp

/-- A literal fits itself, and a condition what it matches in full; a condition that is no
regular expression fits itself. -/
def Segment.fits : Segment → String → Bool
  | literal text, str => text = str
  | conditioned regexp, str =>
      match regcomp regexp with
      | some regex => (0, str.length) ∈ regex.places str
      | none => regexp = str

def intends (method : String) (uri : NameList) (desc : RouteDesc) : Bool :=
  ((segments desc.format).length = uri.length ∧ method = desc.method) &&
    ((segments desc.format).zip uri).all fun pair =>
      (segmentOf desc.conditions pair.1).fits regcomp pair.2

/-- The route that a description stands for. -/
def routeOf (instances : List String) (desc : RouteDesc) : Route where
  template := (segments desc.format).map (expression desc.conditions)
  method := desc.method
  calledMethod := desc.calledMethod
  target := targetOf instances desc.cls

def intended (instances : List String) (descs : List RouteDesc) (uri method body : String) :
    Answer :=
  call uri (segments uri) body
    ((descs.find? (intends regcomp method (segments uri))).map (routeOf instances))

/-- A text in which the expression of a segment is found although the segment does not fit it. -/
def Segment.Strays : Segment → String → Prop
  | literal text, str =>
      str ≠ text ∧ ∀ regex, regcomp text = some regex → regex.places str ≠ []
  | conditioned regexp, str =>
      match regcomp regexp with
      | some regex => regex.places str ≠ [] ∧ (0, str.length) ∉ regex.places str
      | none => str ≠ regexp

/-- A literal that is an expression not found in itself, as one with special characters. -/
def Segment.Lost : Segment → Prop
  | literal text => ∃ regex, regcomp text = some regex ∧ regex.places text = []
  | conditioned _ => False

/-- The segments of a path, each with the piece of the uri in its place. -/
def pairs (desc : RouteDesc) (uri : NameList) : List (Segment × String) :=
  ((segments desc.format).map (segmentOf desc.conditions)).zip uri

/-- The method is the one of the request, and there are as many segments as pieces. -/
def Shaped (method : String) (uri : NameList) (desc : RouteDesc) : Prop :=
  (segments desc.format).length = uri.length ∧ method = desc.method

/-- A route whose segments all fit. -/
def Fits (method : String) (uri : NameList) (desc : RouteDesc) : Prop :=
  Shaped method uri desc ∧ ∀ pair ∈ pairs desc uri, pair.1.fits regcomp pair.2

/-- A route that fits, with a segment that is not found in itself. -/
def Overlooked (method : String) (uri : NameList) (desc : RouteDesc) : Prop :=
  Fits regcomp method uri desc ∧ ∃ pair ∈ pairs desc uri, pair.1.Lost regcomp

/-- A route that does not fit, with segments that stray where they do not fit. -/
def Astray (method : String) (uri : NameList) (desc : RouteDesc) : Prop :=
  Shaped method uri desc ∧
    (∀ pair ∈ pairs desc uri,
      pair.1.Strays regcomp pair.2 ∨ (pair.1.fits regcomp pair.2 ∧ ¬ pair.1.Lost regcomp)) ∧
    ∃ pair ∈ pairs desc uri, pair.1.Strays regcomp pair.2

/-- The handler of a description: the class that serves it and the method called there. -/
def handler (instances : List String) (desc : RouteDesc) : String × String :=
  (targetOf instances desc.cls, desc.calledMethod)

/-- The first route with a property has this handler. -/
def FirstHas (instances : List String) (P : RouteDesc → Prop) (wanted : String × String)
    (descs : List RouteDesc) : Prop :=
  ∃ earlier desc later, descs = earlier ++ desc :: later ∧ (∀ other ∈ earlier, ¬ P other) ∧
    P desc ∧ handler instances desc = wanted

/-- In the order of the table a route that fits comes before any that goes astray.  A route that
goes astray does no harm if the first one that fits has its handler, nor one that is overlooked if
the next one that is not, or that goes astray, has it. -/
inductive Undisturbed (instances : List String) (method : String) (uri : NameList) :
    List RouteDesc → Prop
  | nil : Undisturbed instances method uri []
  | own {desc rest} (hfits : Fits regcomp method uri desc)
      (hfound : ¬ Overlooked regcomp method uri desc) :
      Undisturbed instances method uri (desc :: rest)
  | apart {desc rest} (hfits : ¬ Fits regcomp method uri desc)
      (hastray : ¬ Astray regcomp method uri desc)
      (hrest : Undisturbed instances method uri rest) :
      Undisturbed instances method uri (desc :: rest)
  | astray {desc rest} (hastray : Astray regcomp method uri desc)
      (hsame : FirstHas instances (Fits regcomp method uri) (handler instances desc) rest) :
      Undisturbed instances method uri (desc :: rest)
  | overlooked {desc rest} (hfits : Overlooked regcomp method uri desc)
      (hsame : FirstHas instances (fun other => Astray regcomp method uri other ∨
        (Fits regcomp method uri other ∧ ¬ Overlooked regcomp method uri other))
        (handler instances desc) rest) :
      Undisturbed instances method uri (desc :: rest)

/-! ## Dispatching -/

variable {regcomp} (instances : List String)

theorem loadRoute_eq (desc : RouteDesc) :
    loadRoute instances desc =
      if desc.format = "" then none else some (routeOf instances desc) := by
  by_cases hformat : desc.format = ""
  · rw [loadRoute, hformat, if_pos rfl]
    rfl
  · rw [loadRoute, dropEmptyFront_init hformat, if_neg hformat]
    rfl

/-- A table is loaded when none of its paths is empty. -/
theorem load_eq (descs : List RouteDesc) :
    load instances descs =
      if ∀ desc ∈ descs, desc.format ≠ "" then some (descs.map (routeOf instances)) else none := by
  induction descs with
  | nil => simp [load]
  | cons desc rest ih =>
      rw [load, loadRoute_eq, ih]
      by_cases hformat : desc.format = ""
      · simp [hformat]
      · have hall : (∀ other ∈ desc :: rest, other.format ≠ "") ↔
            ∀ other ∈ rest, other.format ≠ "" := by
          rw [List.forall_mem_cons, and_iff_right hformat]
        by_cases hrest : ∀ other ∈ rest, other.format ≠ ""
        · rw [if_neg hformat, if_pos hrest, if_pos (hall.mpr hrest)]
          rfl
        · rw [if_neg hformat, if_neg hrest, if_neg fun h => hrest (hall.mp h)]
          rfl

/-- The loader turns a segment into the expression that is searched for. -/
theorem expression_eq (conditions : List Condition) (segment : String) :
    expression conditions segment = (segmentOf conditions segment).text := by
  unfold expression segmentOf
  by_cases hcolon : segment.toList.head? = some ':'
  · rw [if_pos hcolon, if_pos hcolon]
    cases conditions.find? fun condition => condition.param = segment with
    | none => rfl
    | some condition => rfl
  · rw [if_neg hcolon, if_neg hcolon]
    rfl

/-- A route is accepted when its segments are found, one by one. -/
theorem accepts_routeOf (method : String) (uri : NameList) (desc : RouteDesc) :
    accepts regcomp method uri (routeOf instances desc) =
      (((segments desc.format).length = uri.length ∧ method = desc.method) &&
        ((segments desc.format).zip uri).all fun pair =>
          matchRegexp regcomp (segmentOf desc.conditions pair.1).text pair.2 : Bool) := by
  rw [accepts, routeOf, List.length_map, List.zip_map_left, List.all_map]
  congr 2
  funext pair
  exact congrArg (matchRegexp regcomp · pair.2) (expression_eq desc.conditions pair.1)

theorem Segment.not_fits_of_strays {segment : Segment} {str : String}
    (h : segment.Strays regcomp str) : segment.fits regcomp str = false := by
  cases segment with
  | literal text => exact decide_eq_false fun hsame => h.1 hsame.symm
  | conditioned regexp =>
      rw [Strays] at h
      rw [fits]
      split
      · next regex hregex =>
          rw [hregex] at h
          exact decide_eq_false h.2
      · next hregex =>
          rw [hregex] at h
          exact decide_eq_false fun hsame => h hsame.symm

/-- The expression of a segment is found where the segment strays, and where it fits without
being lost. -/
theorem Segment.matchRegexp_iff (segment : Segment) (str : String) :
    matchRegexp regcomp segment.text str = true ↔
      segment.Strays regcomp str ∨ (segment.fits regcomp str ∧ ¬ segment.Lost regcomp) := by
  cases segment with
  | literal text =>
      rw [matchRegexp, Strays, fits, Lost, Segment.text, decide_eq_true_eq]
      by_cases hsame : text = str
      · subst hsame
        cases hregex : regcomp text <;> simp
      · have hother : str ≠ text := fun h => hsame h.symm
        cases hregex : regcomp text <;> simp [hsame, hother]
  | conditioned regexp =>
      rw [matchRegexp, Strays, fits, Lost, Segment.text]
      cases hregex : regcomp regexp with
      | none =>
          by_cases hsame : regexp = str
          · simp [hsame]
          · simp [hsame, Ne.symm hsame]
      | some regex =>
          by_cases hfull : (0, str.length) ∈ regex.places str
          · simp [hfull, List.ne_nil_of_mem hfull]
          · simp [hfull]

theorem intends_iff_fits (method : String) (uri : NameList) (desc : RouteDesc) :
    intends regcomp method uri desc = true ↔ Fits regcomp method uri desc := by
  rw [intends, Fits, Shaped, pairs, Bool.and_eq_true, decide_eq_true_eq, List.zip_map_left,
    List.all_eq_true, List.forall_mem_map]
  rfl

/-- The route that is taken goes astray, or it fits and is not overlooked. -/
theorem accepts_iff (method : String) (uri : NameList) (desc : RouteDesc) :
    accepts regcomp method uri (routeOf instances desc) = true ↔
      Astray regcomp method uri desc ∨
        (Fits regcomp method uri desc ∧ ¬ Overlooked regcomp method uri desc) := by
  have hfound : accepts regcomp method uri (routeOf instances desc) = true ↔
      Shaped method uri desc ∧ ∀ pair ∈ pairs desc uri,
        pair.1.Strays regcomp pair.2 ∨
          (pair.1.fits regcomp pair.2 ∧ ¬ pair.1.Lost regcomp) := by
    rw [accepts_routeOf, Shaped, pairs, Bool.and_eq_true, decide_eq_true_eq, List.zip_map_left,
      List.all_eq_true, List.forall_mem_map]
    refine and_congr_right' (forall₂_congr fun pair _ => ?_)
    exact Segment.matchRegexp_iff _ _
  rw [hfound]
  constructor
  · rintro ⟨hshaped, hall⟩
    by_cases hstrays : ∃ pair ∈ pairs desc uri, pair.1.Strays regcomp pair.2
    · exact .inl ⟨hshaped, hall, hstrays⟩
    · have hown : ∀ pair ∈ pairs desc uri,
          pair.1.fits regcomp pair.2 ∧ ¬ pair.1.Lost regcomp :=
        fun pair hpair => (hall pair hpair).resolve_left fun hstray => hstrays ⟨pair, hpair, hstray⟩
      refine .inr ⟨⟨hshaped, fun pair hpair => (hown pair hpair).1⟩, ?_⟩
      rintro ⟨-, pair, hpair, hlost⟩
      exact (hown pair hpair).2 hlost
  · rintro (⟨hshaped, hall, -⟩ | ⟨hfits, hnot⟩)
    · exact ⟨hshaped, hall⟩
    · refine ⟨hfits.1, fun pair hpair => .inr ⟨hfits.2 pair hpair, fun hlost => ?_⟩⟩
      exact hnot ⟨hfits, pair, hpair, hlost⟩

theorem Astray.not_fits {method : String} {uri : NameList} {desc : RouteDesc}
    (h : Astray regcomp method uri desc) : ¬ Fits regcomp method uri desc := by
  intro hfits
  obtain ⟨pair, hpair, hstray⟩ := h.2.2
  exact Bool.false_ne_true
    ((Segment.not_fits_of_strays hstray).symm.trans (hfits.2 pair hpair))

theorem call_eq_iff (uri : String) (params : NameList) (body : String)
    (first second : Option Route) :
    call uri params body first = call uri params body second ↔
      first.map (fun route => (route.target, route.calledMethod)) =
        second.map fun route => (route.target, route.calledMethod) := by
  cases first <;> cases second <;> simp [call]

/-- A table without empty paths sends a request to the first route that accepts it. -/
theorem route_load {descs : List RouteDesc} (hformats : ∀ desc ∈ descs, desc.format ≠ "")
    {uri : String} (huri : uri ≠ "") (method body : String) :
    (load instances descs).bind (fun routes => route regcomp routes uri method body) =
      some (call uri (segments uri) body ((descs.find? fun desc =>
        accepts regcomp method (segments uri) (routeOf instances desc)).map
          (routeOf instances))) := by
  rw [load_eq, if_pos hformats, Option.bind_some, route, dropEmptyFront_init huri,
    Option.map_some, List.find?_map]
  rfl

/-! ## Dispatching by whole segments -/

theorem firstHas_iff {P : RouteDesc → Prop} {p : RouteDesc → Bool}
    (hp : ∀ desc, p desc = true ↔ P desc) (wanted : String × String) (descs : List RouteDesc) :
    FirstHas instances P wanted descs ↔
      (descs.find? p).map (handler instances) = some wanted := by
  rw [Option.map_eq_some_iff]
  simp only [List.find?_eq_some_iff_append]
  constructor
  · rintro ⟨earlier, desc, later, hsplit, hnone, hdesc, hsame⟩
    refine ⟨desc, ⟨(hp desc).mpr hdesc, earlier, later, hsplit, fun other hother => ?_⟩, hsame⟩
    rw [Bool.not_eq_true', ← Bool.not_eq_true, hp]
    exact hnone other hother
  · rintro ⟨desc, ⟨hdesc, earlier, later, hsplit, hnone⟩, hsame⟩
    refine ⟨earlier, desc, later, hsplit, fun other hother => ?_, (hp desc).mp hdesc, hsame⟩
    rw [← hp, Bool.not_eq_true, ← Bool.not_eq_true']
    exact hnone other hother

/-- The first route that is taken has the handler of the first that fits exactly when the table
is undisturbed. -/
theorem handler_find?_iff_undisturbed {method : String} {uri : NameList}
    {taken intended : RouteDesc → Bool}
    (htaken : ∀ desc, taken desc = true ↔ Astray regcomp method uri desc ∨
      (Fits regcomp method uri desc ∧ ¬ Overlooked regcomp method uri desc))
    (hintended : ∀ desc, intended desc = true ↔ Fits regcomp method uri desc)
    (descs : List RouteDesc) :
    (descs.find? taken).map (handler instances) =
        (descs.find? intended).map (handler instances) ↔
      Undisturbed regcomp instances method uri descs := by
  induction descs with
  | nil => exact iff_of_true rfl .nil
  | cons desc rest ih =>
      by_cases hfits : Fits regcomp method uri desc
      · have hastray : ¬ Astray regcomp method uri desc := fun h => h.not_fits hfits
        rw [List.find?_cons_of_pos ((hintended desc).mpr hfits)]
        by_cases hover : Overlooked regcomp method uri desc
        · have hnot : ¬ taken desc = true :=
            fun h => ((htaken desc).mp h).elim hastray fun hown => hown.2 hover
          rw [List.find?_cons_of_neg hnot, Option.map_some,
            ← firstHas_iff instances htaken (handler instances desc) rest]
          refine ⟨.overlooked hover, fun h => ?_⟩
          cases h with
          | own _ hfound => exact absurd hover hfound
          | apart hnone => exact absurd hfits hnone
          | astray h => exact absurd h hastray
          | overlooked _ hsame => exact hsame
        · rw [List.find?_cons_of_pos ((htaken desc).mpr (.inr ⟨hfits, hover⟩))]
          exact iff_of_true rfl (.own hfits hover)
      · have hover : ¬ Overlooked regcomp method uri desc := fun h => hfits h.1
        have hnone : ¬ intended desc = true := fun h => hfits ((hintended desc).mp h)
        rw [List.find?_cons_of_neg hnone]
        by_cases hastray : Astray regcomp method uri desc
        · rw [List.find?_cons_of_pos ((htaken desc).mpr (.inl hastray)), Option.map_some, eq_comm,
            ← firstHas_iff instances hintended (handler instances desc) rest]
          refine ⟨.astray hastray, fun h => ?_⟩
          cases h with
          | own h => exact absurd h hfits
          | apart _ hnone => exact absurd hastray hnone
          | astray _ hsame => exact hsame
          | overlooked h => exact absurd h hover
        · have hnot : ¬ taken desc = true :=
            fun h => ((htaken desc).mp h).elim hastray fun hown => hfits hown.1
          rw [List.find?_cons_of_neg hnot, ih]
          refine ⟨.apart hfits hastray, fun h => ?_⟩
          cases h with
          | own h => exact absurd h hfits
          | apart _ _ hrest => exact hrest
          | astray h => exact absurd h hastray
          | overlooked h => exact absurd h hover

/-- A request is dispatched as intended exactly when no path and no uri is empty and, in the order
of the table, no route that goes astray or is overlooked changes the handler. -/
theorem dispatched_iff (descs : List RouteDesc) (uri method body : String) :
    (load instances descs).bind (fun routes => route regcomp routes uri method body) =
        some (intended regcomp instances descs uri method body) ↔
      (∀ desc ∈ descs, desc.format ≠ "") ∧ uri ≠ "" ∧
        Undisturbed regcomp instances method (segments uri) descs := by
  by_cases hformats : ∀ desc ∈ descs, desc.format ≠ ""
  · rw [and_iff_right hformats]
    by_cases huri : uri = ""
    · subst huri
      rw [load_eq, if_pos hformats]
      refine iff_of_false ?_ fun h => h.1 rfl
      exact (Option.some_ne_none _).symm
    · rw [route_load instances hformats huri, Option.some.injEq, and_iff_right huri,
        intended, call_eq_iff, Option.map_map, Option.map_map]
      exact handler_find?_iff_undisturbed instances (accepts_iff instances method (segments uri))
        (intends_iff_fits method (segments uri)) descs
  · rw [load_eq, if_neg hformats]
    exact iff_of_false (Option.some_ne_none _).symm fun h => hformats h.1

/-- A segment that never strays and is never lost: its expression is found exactly in the texts
that it fits. -/
def Segment.Exact (regcomp : String → Option Regex) (segment : Segment) : Prop :=
  (∀ str, ¬ segment.Strays regcomp str) ∧ ¬ segment.Lost regcomp

/-- A table whose segments are all exact is disturbed by no request. -/
theorem undisturbed_of_exact {descs : List RouteDesc}
    (hexact : ∀ desc ∈ descs, ∀ segment ∈ segments desc.format,
      Segment.Exact regcomp (segmentOf desc.conditions segment))
    (method : String) (uri : NameList) : Undisturbed regcomp instances method uri descs := by
  induction descs with
  | nil => exact .nil
  | cons desc rest ih =>
      rw [List.forall_mem_cons] at hexact
      have hpairs : ∀ pair ∈ pairs desc uri, Segment.Exact regcomp pair.1 := by
        intro pair hpair
        obtain ⟨segment, hsegment, hsame⟩ := List.mem_map.mp (List.of_mem_zip hpair).1
        exact hsame ▸ hexact.1 segment hsegment
      by_cases hfits : Fits regcomp method uri desc
      · refine .own hfits ?_
        rintro ⟨-, pair, hpair, hlost⟩
        exact (hpairs pair hpair).2 hlost
      · refine .apart hfits ?_ (ih hexact.2)
        rintro ⟨-, -, pair, hpair, hstray⟩
        exact (hpairs pair hpair).1 pair.2 hstray

/-- The places where a text stands literally. -/
def literally (exp : String) : Regex where
  places str := (List.range (str.length + 1)).filterMap fun start =>
    if exp.toList.isPrefixOf (str.toList.drop start) then some (start, start + exp.length)
    else none

def statusDescs : List RouteDesc :=
  [{ format := "/status", method := "GET", conditions := [],
     calledMethod := "getFirst", cls := "archive" },
   { format := "/statusall", method := "GET", conditions := [],
     calledMethod := "getAll", cls := "archive" }]

/-- A literal segment that the uri continues takes the request of the longer one. -/
theorem not_dispatched_longer :
    (load loadClasses statusDescs).bind
        (fun routes => route (fun exp => some (literally exp)) routes "/statusall" "GET" "") ≠
      some (intended (fun exp => some (literally exp)) loadClasses
        statusDescs "/statusall" "GET" "") := by
  decide +kernel

end RoutingMap

end Hat
