import Hat.Minilibs.ArchiveManager

/-!
# The files of the archive that requests reach

A request should be answered from a file in a visible subdirectory of a configured root.  The
module determines when it is: the permission that the code asks for is enough for a plain url,
which names a root, a subdirectory and something in it and never goes up.
-/

namespace Hat.ArchiveManager

open NameList Pathname

section Spec

variable (archive : ArchiveManager) (cwd : List String)

/-- Inside a configured root, and there in a visible subdirectory unless all is visible. -/
def Allowed (place : List String) : Prop :=
  ∃ name descriptor below, archive.accessInfo.find? name = some descriptor ∧
    resolve cwd (descriptor.home ++ "/") <+: place ∧
    place = resolve cwd (descriptor.home ++ "/" ++ name) ++ below ∧ below ≠ [] ∧
    (fullAccess descriptor = some true ∨ ∃ subdir rest,
      below = subdir :: rest ∧ rest ≠ [] ∧ subdir ∈ descriptor.visibility)

/-- Every file that is opened may be reached, and without one the request is refused. -/
def Confined : Option Reply → Prop
  | none => False
  | some reply => (∀ path ∈ reply.opened, archive.Allowed cwd (resolve cwd path)) ∧
      (reply.opened = [] → isRefusal reply.answer)

end Spec

/-- The root that the check looks up: the first segment of a url with a leading slash. -/
def checkedName (url root : String) : String :=
  if url.toList.head? = some '/' then root else ""

/-- The directory of a url. -/
def directory (archive : ArchiveManager) (url root : String) : String :=
  dirPath ((match archive.accessInfo.find? root with
    | some descriptor => descriptor.home
    | none => archive.archiveHome) ++ "/" ++ url)

theorem init_eq_split {url : String} (hurl : url ≠ "") :
    NameList.init [] url '/' =
      if (split url).getLast? = some "" then (split url).dropLast else split url := by
  have hlast : (url.toList.splitOn '/').getLast? = some [] ↔
      (split url).getLast? = some "" := by
    rw [split, List.getLast?_map]
    cases (url.toList.splitOn '/').getLast? with
    | none => simp
    | some last => simp [String.ext_iff]
  simp only [NameList.init, if_neg hurl]
  by_cases hempty : (split url).getLast? = some ""
  · rw [if_pos hempty, if_pos (hlast.mpr hempty), List.map_dropLast, split]
  · rw [if_neg hempty, if_neg fun h => hempty (hlast.mp h), split]

theorem ne_empty_of_segments {url : String} (hsegments : segments url ≠ []) : url ≠ "" := by
  rintro rfl
  exact hsegments rfl

/-- A url with segments is taken apart at a leading slash. -/
theorem rooted_iff {url : String} (hsegments : segments url ≠ []) :
    (NameList.init [] url '/').head? = some "" ∧ (NameList.init [] url '/').length > 1 ↔
      url.toList.head? = some '/' := by
  have hurl := ne_empty_of_segments hsegments
  have hhead : (NameList.init [] url '/').head? = some "" ↔ url.toList.head? = some '/' := by
    rw [head?_init hurl]
    cases hchars : url.toList with
    | nil => exact absurd (String.toList_eq_nil_iff.mp hchars) hurl
    | cons c rest =>
        by_cases hc : c = '/'
        · simp [hc]
        · simp [hc, String.ext_iff]
  rw [hhead, and_iff_left_iff_imp]
  intro hslash
  rw [segments] at hsegments
  cases hlist : NameList.init [] url '/' with
  | nil =>
      rw [hlist] at hsegments
      exact absurd rfl hsegments
  | cons first rest =>
      have hfirst : first = "" := by
        have h := hhead.mpr hslash
        rw [hlist] at h
        exact Option.some.inj h
      rw [hlist, dropEmptyFront, if_pos hfirst, Option.getD_some] at hsegments
      have hlength : 0 < rest.length := List.length_pos_iff.mpr hsegments
      rw [List.length_cons]
      omega

/-- The check sees the segments of the url, unless it has none. -/
theorem resPath_eq {url : String} (hsegments : segments url ≠ []) :
    (if (NameList.init [] url '/').head? = some "" ∧ (NameList.init [] url '/').length > 1
      then (NameList.init [] url '/').tail else NameList.init [] url '/') = segments url := by
  rw [segments] at hsegments ⊢
  cases hlist : NameList.init [] url '/' with
  | nil =>
      rw [hlist] at hsegments
      exact absurd rfl hsegments
  | cons first rest =>
      rw [hlist] at hsegments
      by_cases hfirst : first = ""
      · have hrest : rest ≠ [] := by simpa [dropEmptyFront, hfirst] using hsegments
        have hlength : 0 < rest.length := List.length_pos_iff.mpr hrest
        simp [dropEmptyFront, hfirst, hlength]
      · simp [dropEmptyFront, hfirst]

variable (archive : ArchiveManager)

theorem getRootPath_eq (url : String) :
    archive.getRootPath url = (segments url).head?.map fun rname =>
      match archive.accessInfo.find? rname with
      | some descriptor => descriptor.home
      | none => archive.archiveHome := by
  by_cases hurl : url = ""
  · subst hurl
    rfl
  · rw [getRootPath, dropEmptyFront_init hurl]
    rfl

/-- What is said of a request that the check refuses. -/
def refusal (url root : String) : String :=
  if archive.accessInfo.contains (checkedName url root) then "Forbidden" else "Not Found"

/-- The permission that the check grants for a root and a subdirectory. -/
def Visible (root subdir : String) : Prop :=
  ∃ descriptor, archive.accessInfo.find? root = some descriptor ∧
    (fullAccess descriptor = some true ∨ subdir ∈ descriptor.visibility)

/-- The request passes the check: it has one segment, or it names a visible subdirectory. -/
def Granted (url : String) : Prop :=
  match segments url with
  | [] => False
  | [_] => True
  | root :: subdir :: _ =>
      archive.accessInfo.contains (checkedName url root) ∧ archive.Visible root subdir

/-- The check reads no front of an empty list. -/
def Defined (url : String) : Prop :=
  match segments url with
  | [] => False
  | [_] => True
  | root :: _ :: _ => archive.accessInfo.contains (checkedName url root) →
      ∀ descriptor, archive.accessInfo.find? root = some descriptor → descriptor.visibility ≠ []

theorem getExec_eq {url root : String} {rest : List String}
    (hsegments : segments url = root :: rest) :
    archive.getExec url =
      if rest ≠ [] ∧ archive.accessInfo.find? (checkedName url root) = none then
        some "Not Found"
      else (archive.checkPermission (root :: rest) .read).map fun permission =>
        if permission then archive.directory url root else "Forbidden" := by
  have hne : segments url ≠ [] := by
    rw [hsegments]
    exact List.cons_ne_nil root rest
  have hname : (if url.toList.head? = some '/' then (root :: rest).headD "" else "") =
      checkedName url root := rfl
  rw [getExec, getRootPath_eq, hsegments, List.head?_cons, Option.map_some, Option.bind_some]
  simp only [resPath_eq hne]
  simp only [rooted_iff hne, hsegments, hname]
  simp only [List.length_cons, ne_eq, Nat.add_eq_right, List.length_eq_zero_iff]
  rfl

theorem find?_eq_none_iff (name : String) :
    archive.accessInfo.find? name = none ↔ ¬archive.accessInfo.contains name = true := by
  rw [SortedMap.contains, Bool.not_eq_true, Option.isSome_eq_false_iff, Option.isNone_iff_eq_none]

theorem getExec_of_not_defined {url : String} (hdefined : ¬archive.Defined url) :
    archive.getExec url = none := by
  cases hsegments : segments url with
  | nil =>
      rw [getExec, getRootPath_eq, hsegments]
      rfl
  | cons root rest =>
      cases rest with
      | nil =>
          rw [Defined, hsegments] at hdefined
          exact absurd trivial hdefined
      | cons subdir rest =>
          rw [Defined, hsegments] at hdefined
          push Not at hdefined
          obtain ⟨hchecked, descriptor, hfind, hvisibility⟩ := hdefined
          rw [getExec_eq archive hsegments, if_neg fun h =>
            (archive.find?_eq_none_iff _).mp h.2 hchecked]
          simp [checkPermission, hfind, fullAccess, hvisibility]

theorem checkPermission_of_visible {root subdir : String} (rest : List String)
    (hvisible : archive.Visible root subdir) (mode : Mode) :
    archive.checkPermission (root :: subdir :: rest) mode = some true := by
  obtain ⟨descriptor, hfind, hfull | hmem⟩ := hvisible
  · simp [checkPermission, hfind, hfull]
  · cases hvisibility : descriptor.visibility with
    | nil =>
        rw [hvisibility] at hmem
        exact absurd hmem List.not_mem_nil
    | cons first others =>
        rw [hvisibility] at hmem
        simp only [checkPermission, hfind, fullAccess, hvisibility, List.head?_cons,
          Option.map_some, decide_eq_true hmem, Bool.or_true]

theorem checkPermission_of_not_visible {root subdir : String} (rest : List String)
    (hvisibility : ∀ descriptor, archive.accessInfo.find? root = some descriptor →
      descriptor.visibility ≠ [])
    (hvisible : ¬archive.Visible root subdir) (mode : Mode) :
    archive.checkPermission (root :: subdir :: rest) mode = some false := by
  cases hfind : archive.accessInfo.find? root with
  | none => simp only [checkPermission, hfind]
  | some descriptor =>
      have hfull : fullAccess descriptor ≠ some true := fun h =>
        hvisible ⟨descriptor, hfind, .inl h⟩
      have hmem : subdir ∉ descriptor.visibility := fun h =>
        hvisible ⟨descriptor, hfind, .inr h⟩
      cases hfirst : fullAccess descriptor with
      | none =>
          rw [fullAccess, Option.map_eq_none_iff, List.head?_eq_none_iff] at hfirst
          exact absurd hfirst (hvisibility descriptor hfind)
      | some full =>
          have hfalse : full = false := by
            rw [hfirst] at hfull
            simpa using hfull
          simp only [checkPermission, hfind, hfirst, hfalse, Option.map_some,
            decide_eq_false hmem, Bool.or_self]

theorem getExec_of_granted {url root : String} {rest : List String}
    (hsegments : segments url = root :: rest) (hgranted : archive.Granted url) :
    archive.getExec url = some (archive.directory url root) := by
  rw [getExec_eq archive hsegments]
  cases rest with
  | nil => simp [checkPermission]
  | cons subdir rest =>
      rw [Granted, hsegments] at hgranted
      rw [if_neg fun h => (archive.find?_eq_none_iff _).mp h.2 hgranted.1,
        checkPermission_of_visible archive rest hgranted.2]
      rfl

theorem getExec_of_refused {url root : String} {rest : List String}
    (hsegments : segments url = root :: rest) (hdefined : archive.Defined url)
    (hgranted : ¬archive.Granted url) :
    archive.getExec url = some (archive.refusal url root) := by
  rw [getExec_eq archive hsegments, refusal]
  cases rest with
  | nil =>
      rw [Granted, hsegments] at hgranted
      exact absurd trivial hgranted
  | cons subdir rest =>
      rw [Granted, hsegments, not_and] at hgranted
      rw [Defined, hsegments] at hdefined
      by_cases hchecked : archive.accessInfo.contains (checkedName url root) = true
      · rw [if_neg fun h => (archive.find?_eq_none_iff _).mp h.2 hchecked, if_pos hchecked,
          checkPermission_of_not_visible archive rest (hdefined hchecked) (hgranted hchecked)]
        rfl
      · rw [if_neg hchecked, if_pos]
        exact ⟨List.cons_ne_nil subdir rest, (archive.find?_eq_none_iff _).mpr hchecked⟩

section Requests

variable (files : FileSystem) (parse : String → List XmlNode)

/-- The file that a request looks for in a directory. -/
def fileName (url dir : String) : GetMethod → Option String
  | .getFirst => some "data"
  | .getAll => some "data"
  | .getFile => some (Hsrv.tailof url)
  | .getLast => latestName files dir

def answerFrom (path content : String) : GetMethod → Option Reply
  | .getFirst => describe files parse archive (firstLine content) path
  | .getLast => describe files parse archive (lastLine content) path
  | .getAll => some ⟨String.join ((lines content).map fun line => line ++ "\n"), "", [path]⟩
  | .getFile => some ⟨content, "", [path]⟩

/-- What a request does with the directory of its url. -/
def serve (url dir : String) (method : GetMethod) : Option Reply :=
  if method ≠ .getLast ∧ isRefusal dir then some (refuse dir)
  else match fileName files url dir method with
    | some name => withFile files (dir ++ "/" ++ name) fun content =>
        answerFrom archive files parse (dir ++ "/" ++ name) content method
    | none => some (refuse "Not Found")

/-- A path with a slash is not taken for a refusal. -/
theorem isRefusal_join (dir name : String) : isRefusal (dir ++ "/" ++ name) = false := by
  have hslash : '/' ∈ (dir ++ "/" ++ name).toList := by simp
  have hne : ∀ text : String, '/' ∉ text.toList → dir ++ "/" ++ name ≠ text := by
    intro text htext heq
    rw [heq] at hslash
    exact htext hslash
  rw [isRefusal, decide_eq_false (hne "Not Found" (by decide)),
    decide_eq_false (hne "Forbidden" (by decide)), Bool.or_self]

theorem get_eq (url : String) (method : GetMethod) :
    get files parse archive url method =
      (archive.getExec url).bind fun dir => serve archive files parse url dir method := by
  cases method with
  | getFirst =>
      change getFirst files parse archive url = _
      simp [getFirst, serve, fileName, answerFrom]
  | getAll =>
      change getAll files archive url = _
      simp [getAll, serve, fileName, answerFrom]
  | getFile =>
      change getFile files archive url = _
      simp [getFile, serve, fileName, answerFrom]
  | getLast =>
      change getLast files parse archive url = _
      rw [getLast]
      congr 1
      funext dir
      cases hname : latestName files dir with
      | none => simp [getLatestData, serve, fileName, hname, isRefusal]
      | some name =>
          simp [getLatestData, serve, fileName, hname, isRefusal_join, answerFrom]

variable (cwd : List String)

/-- The line that may describe a video. -/
def describedLine (content : String) : GetMethod → Option String
  | .getFirst => some (firstLine content)
  | .getLast => some (lastLine content)
  | .getAll => none
  | .getFile => none

/-- A video that is described and can be opened may be reached. -/
def VideoAllowed (line : String) : Prop :=
  match parse ("<?xml version=\"1.0\" ?>" ++ line) with
  | [] => False
  | [_] => True
  | _ :: desc :: _ =>
      desc.getAttrbyName "format" = "video" →
        files.content (archive.archiveHome ++ desc.getAttrbyName "url") ≠ none →
          archive.Allowed cwd (resolve cwd (archive.archiveHome ++ desc.getAttrbyName "url"))

theorem confined_describe (line path : String) :
    archive.Confined cwd (describe files parse archive line path) ↔
      archive.Allowed cwd (resolve cwd path) ∧ archive.VideoAllowed files parse cwd line := by
  rw [describe, VideoAllowed]
  cases parse ("<?xml version=\"1.0\" ?>" ++ line) with
  | nil => simp [Confined]
  | cons first rest =>
      cases rest with
      | nil => simp [Confined]
      | cons desc rest =>
          by_cases hvideo : desc.getAttrbyName "format" = "video"
          · cases hcontent : files.content (archive.archiveHome ++ desc.getAttrbyName "url") with
            | none => simp [Confined, hvideo, hcontent]
            | some content => simp [Confined, hvideo, hcontent]
          · simp [Confined, hvideo]

theorem confined_answerFrom (path content : String) (method : GetMethod) :
    archive.Confined cwd (answerFrom archive files parse path content method) ↔
      archive.Allowed cwd (resolve cwd path) ∧
        ∀ line, describedLine content method = some line →
          archive.VideoAllowed files parse cwd line := by
  cases method with
  | getFirst => simp [answerFrom, describedLine, confined_describe]
  | getLast => simp [answerFrom, describedLine, confined_describe]
  | getAll => simp [answerFrom, describedLine, Confined]
  | getFile => simp [answerFrom, describedLine, Confined]

theorem confined_refuse {answer : String} (hanswer : isRefusal answer = true) :
    archive.Confined cwd (some (refuse answer)) := by
  refine ⟨?_, fun _ => hanswer⟩
  intro path hpath
  exact absurd hpath List.not_mem_nil

theorem confined_serve (url dir : String) (method : GetMethod) :
    archive.Confined cwd (serve archive files parse url dir method) ↔
      ((method ≠ .getLast → isRefusal dir = false) →
        ∀ name, fileName files url dir method = some name →
          ∀ content, files.content (dir ++ "/" ++ name) = some content →
            archive.Allowed cwd (resolve cwd (dir ++ "/" ++ name)) ∧
              ∀ line, describedLine content method = some line →
                archive.VideoAllowed files parse cwd line) := by
  rw [serve]
  by_cases hrefusal : method ≠ .getLast ∧ isRefusal dir = true
  · rw [if_pos hrefusal]
    refine iff_of_true (archive.confined_refuse cwd hrefusal.2) fun hdir => ?_
    exact absurd ((hdir hrefusal.1).symm.trans hrefusal.2) Bool.false_ne_true
  · have hdir : method ≠ .getLast → isRefusal dir = false := fun hmethod =>
      Bool.eq_false_iff.mpr fun h => hrefusal ⟨hmethod, h⟩
    rw [if_neg hrefusal, forall_prop_of_true hdir]
    cases hname : fileName files url dir method with
    | none => simpa using archive.confined_refuse cwd rfl
    | some name =>
        simp only [Option.some.injEq, forall_eq', withFile]
        cases hcontent : files.content (dir ++ "/" ++ name) with
        | none => simpa using archive.confined_refuse cwd rfl
        | some content =>
            simp only [Option.some.injEq, forall_eq']
            exact archive.confined_answerFrom files parse cwd _ content method

end Requests

/-! ## Where urls lead -/

section Leads

variable (cwd : List String)

/-- What is visible of a root: everything in it, or what lies in a subdirectory of its list. -/
def Shown (descriptor : RootDescriptor) (below : List String) : Prop :=
  below ≠ [] ∧ (fullAccess descriptor = some true ∨ ∃ subdir rest,
    below = subdir :: rest ∧ rest ≠ [] ∧ subdir ∈ descriptor.visibility)

/-- The segments go up from a place and down again by the names that are kept.  Either these
names first lead to the directory of a root that is configured and then to something visible in
it, or the way up already ends inside the directory of such a root.  The home of the root is not
left. -/
def Leads (place segments : List String) : Prop :=
  ∃ name descriptor, archive.accessInfo.find? name = some descriptor ∧
    resolve cwd (descriptor.home ++ "/") <+:
      place.take (place.length - climbs segments) ++ kept segments ∧
    ((∃ back below, kept segments = back ++ below ∧ Shown descriptor below ∧
        resolve cwd (descriptor.home ++ "/" ++ name) =
          place.take (place.length - climbs segments) ++ back) ∨
      ∃ inner, Shown descriptor (inner ++ kept segments) ∧
        place.take (place.length - climbs segments) =
          resolve cwd (descriptor.home ++ "/" ++ name) ++ inner)

theorem allowed_walk_iff (place segments : List String) :
    archive.Allowed cwd (walk place segments) ↔ archive.Leads cwd place segments := by
  rw [walk_eq]
  constructor
  · rintro ⟨name, descriptor, below, hfind, hhome, hplace, hbelow⟩
    refine ⟨name, descriptor, hfind, hhome, ?_⟩
    rcases List.append_eq_append_iff.mp hplace with ⟨back, hdir, hkept⟩ | ⟨inner, hup, hkept⟩
    · exact .inl ⟨back, below, hkept, hbelow, hdir⟩
    · exact .inr ⟨inner, hkept ▸ hbelow, hup⟩
  · rintro ⟨name, descriptor, hfind, hhome, ⟨back, below, hkept, hbelow, hdir⟩ |
      ⟨inner, hbelow, hup⟩⟩
    · refine ⟨name, descriptor, below, hfind, hhome, ?_, hbelow⟩
      rw [hdir, hkept, List.append_assoc]
    · refine ⟨name, descriptor, inner ++ kept segments, hfind, hhome, ?_, hbelow⟩
      rw [hup, List.append_assoc]

/-- The directory in which the roots of a request are looked for. -/
def rootHome (root : String) : String :=
  match archive.accessInfo.find? root with
  | some descriptor => descriptor.home
  | none => archive.archiveHome

/-- With permission a url leads on from the home of its root, with `name` in the place of its last
segment; a refused request goes on from the working directory, in a directory that is called like
the refusal. -/
structure StaysIn (url name : String) : Prop where
  granted : ∀ root others, segments url = root :: others → archive.Granted url →
    archive.Leads cwd (resolve cwd (archive.rootHome root ++ "/")) ((split url).dropLast ++ [name])
  refused : ∀ root others, segments url = root :: others → ¬archive.Granted url →
    archive.Leads cwd cwd [archive.refusal url root, name]

/-- A video that a line describes and that can be opened leads on from the home of the archive. -/
def VideoStays (files : FileSystem) (parse : String → List XmlNode) (line : String) : Prop :=
  match parse ("<?xml version=\"1.0\" ?>" ++ line) with
  | [] => False
  | [_] => True
  | _ :: desc :: _ =>
      desc.getAttrbyName "format" = "video" →
        files.content (archive.archiveHome ++ desc.getAttrbyName "url") ≠ none →
          archive.Leads cwd (start cwd (archive.archiveHome ++ desc.getAttrbyName "url"))
            (split (archive.archiveHome ++ desc.getAttrbyName "url"))

end Leads

/-- The url names a root, a subdirectory and something in it, and never goes up; `name` is
looked for in the place of the last segment. -/
def Plain (url name : String) : Prop :=
  ∃ root subdir rest last,
    (split url = root :: subdir :: (rest ++ [last]) ∧ root ≠ "" ∨
      split url = "" :: root :: subdir :: (rest ++ [last])) ∧
    ".." ∉ root :: subdir :: (rest ++ [name]) ∧ Proper subdir ∧
      ∃ segment ∈ rest ++ [name], Proper segment

theorem segments_of_split {url root subdir last : String} {rest : List String}
    (hsplit : split url = root :: subdir :: (rest ++ [last]) ∧ root ≠ "" ∨
      split url = "" :: root :: subdir :: (rest ++ [last])) :
    ∃ others, segments url = root :: subdir :: others := by
  have hurl : url ≠ "" := by
    rintro rfl
    have hempty : split "" = [""] := rfl
    rw [hempty] at hsplit
    simp at hsplit
  rw [segments, init_eq_split hurl]
  have hlast : ∀ front : List String, ∃ others,
      (if (front ++ root :: subdir :: (rest ++ [last])).getLast? = some "" then
        (front ++ root :: subdir :: (rest ++ [last])).dropLast
      else front ++ root :: subdir :: (rest ++ [last])) = front ++ root :: subdir :: others := by
    intro front
    split
    · refine ⟨rest, ?_⟩
      rw [← List.cons_append, ← List.cons_append, ← List.append_assoc, List.dropLast_concat]
    · exact ⟨rest ++ [last], rfl⟩
  rcases hsplit with ⟨hsplit, hroot⟩ | hsplit
  · obtain ⟨others, hothers⟩ := hlast []
    rw [List.nil_append, List.nil_append] at hothers
    rw [hsplit, hothers]
    exact ⟨others, by simp [dropEmptyFront, hroot]⟩
  · obtain ⟨others, hothers⟩ := hlast [""]
    rw [List.singleton_append, List.singleton_append] at hothers
    rw [hsplit, hothers]
    exact ⟨others, by simp [dropEmptyFront]⟩

theorem dirPath_join {fullPath : String} (hslash : '/' ∈ fullPath.toList) :
    dirPath fullPath ++ "/" ++ Hsrv.tailof fullPath = fullPath := by
  rw [dirPath, Hsrv.tailof]
  apply String.toList_inj.mp
  simpa using FileManager.beforeLast_append_afterLast hslash

theorem noSlash_tailof (path : String) : '/' ∉ (Hsrv.tailof path).toList := by
  rw [Hsrv.tailof, String.toList_ofList]
  exact FileManager.notMem_afterLast '/' path.toList

/-- The place that a request reaches from the home of its root. -/
theorem resolve_directory (cwd : List String) (url root : String) {name : String}
    (hname : '/' ∉ name.toList) :
    resolve cwd (archive.directory url root ++ "/" ++ name) =
      walk (resolve cwd (archive.rootHome root ++ "/")) ((split url).dropLast ++ [name]) :=
  resolve_sibling cwd (dirPath_join (by simp)) (noSlash_tailof _) hname

/-- The place that a refused request reaches. -/
theorem resolve_refusal (cwd : List String) (url root : String) {name : String}
    (hname : '/' ∉ name.toList) :
    resolve cwd (archive.refusal url root ++ "/" ++ name) =
      walk cwd [archive.refusal url root, name] := by
  have hrefusal : split (archive.refusal url root) = [archive.refusal url root] ∧
      start cwd (archive.refusal url root ++ "/") = cwd := by
    rw [refusal]
    split <;> exact ⟨by decide, if_neg (by decide)⟩
  rw [resolve_join, resolve_slash, split_of_notMem hname, hrefusal.1, hrefusal.2, ← walk_append]
  rfl

/-- A plain url with permission leads where it may. -/
theorem leads_of_plain (cwd : List String) {url name root : String} {others : List String}
    (hsegments : segments url = root :: others) (hplain : Plain url name)
    (hgranted : archive.Granted url) :
    archive.Leads cwd (resolve cwd (archive.rootHome root ++ "/"))
      ((split url).dropLast ++ [name]) := by
  obtain ⟨top, subdir, rest, last, hsplit, hparent, hproper, hinside⟩ := hplain
  obtain ⟨others', hsegments'⟩ := segments_of_split hsplit
  have htop : top = root := by
    rw [hsegments] at hsegments'
    exact (List.cons.inj hsegments').1.symm
  subst htop
  rw [Granted, hsegments'] at hgranted
  obtain ⟨-, descriptor, hfind, hvisible⟩ := hgranted
  have hhome : archive.rootHome top = descriptor.home := by rw [rootHome, hfind]
  -- A leading slash goes nowhere.
  have hplace : walk (resolve cwd (archive.rootHome top ++ "/"))
      ((split url).dropLast ++ [name]) =
        walk (walk (resolve cwd (descriptor.home ++ "/")) [top]) (subdir :: (rest ++ [name])) := by
    rw [hhome, ← walk_append, List.singleton_append]
    rcases hsplit with ⟨hsplit, -⟩ | hsplit
    · rw [hsplit, ← List.cons_append, ← List.cons_append, List.dropLast_concat]
      rfl
    · rw [hsplit, ← List.cons_append, ← List.cons_append, ← List.cons_append,
        List.dropLast_concat]
      rfl
  have hdir : resolve cwd (descriptor.home ++ "/" ++ top) =
      walk (resolve cwd (descriptor.home ++ "/")) [top] := by
    have hmem : top ∈ split url := by
      rcases hsplit with ⟨hsplit, -⟩ | hsplit <;> simp [hsplit]
    rw [resolve_join, split_segment hmem]
  have hparent' : ".." ∉ subdir :: (rest ++ [name]) := List.not_mem_of_not_mem_cons hparent
  have hbelow : (subdir :: (rest ++ [name])).filter (fun segment => Proper segment) =
      subdir :: (rest ++ [name]).filter fun segment => Proper segment :=
    List.filter_cons_of_pos (by simpa using hproper)
  have hne : (rest ++ [name]).filter (fun segment => Proper segment) ≠ [] := by
    obtain ⟨segment, hmem, hsegment⟩ := hinside
    exact List.ne_nil_of_mem (List.mem_filter.mpr ⟨hmem, by simpa using hsegment⟩)
  rw [← allowed_walk_iff, hplace]
  refine ⟨top, descriptor, subdir :: (rest ++ [name]).filter fun segment => Proper segment,
    hfind, ?_, ?_, List.cons_ne_nil subdir _, ?_⟩
  · rw [← walk_append, List.singleton_append, walk_of_notMem hparent]
    exact List.prefix_append _ _
  · rw [walk_of_notMem hparent', hbelow, hdir]
  · exact hvisible.imp_right fun hmem => ⟨subdir, _, rfl, hne, hmem⟩

/-! ## Confinement -/

section Confinement

variable (files : FileSystem) (parse : String → List XmlNode) (cwd : List String)

theorem noSlash_latestName {dir name : String} (hname : latestName files dir = some name) :
    '/' ∉ name.toList := by
  rw [latestName] at hname
  split at hname
  · rw [← Option.some.inj hname]
    decide
  · have hmem := List.mem_mergeSort.mp (List.mem_of_mem_head? hname)
    rw [List.mem_filter, FileSystem.fileList] at hmem
    obtain ⟨entry, -, rfl⟩ := List.mem_map.mp hmem.1
    exact entry.name_noSlash

theorem noSlash_fileName {url dir name : String} {method : GetMethod}
    (hname : fileName files url dir method = some name) : '/' ∉ name.toList := by
  cases method with
  | getFirst =>
      rw [← Option.some.inj hname]
      decide
  | getAll =>
      rw [← Option.some.inj hname]
      decide
  | getFile =>
      rw [← Option.some.inj hname]
      exact noSlash_tailof url
  | getLast => exact noSlash_latestName files hname

/-- The directory in which a request looks for its file.  A refused `getLast` looks in one that
is called like the refusal. -/
def Looks (url : String) (method : GetMethod) (dir : String) : Prop :=
  (method ≠ .getLast → isRefusal dir = false) ∧ ∃ root others, segments url = root :: others ∧
    (archive.Granted url ∧ dir = archive.directory url root ∨
      ¬archive.Granted url ∧ dir = archive.refusal url root)

/-- A check that is defined answers with one directory. -/
theorem getExec_of_defined {url : String} (hdefined : archive.Defined url) :
    ∃ root others dir, segments url = root :: others ∧ archive.getExec url = some dir ∧
      (archive.Granted url ∧ dir = archive.directory url root ∨
        ¬archive.Granted url ∧ dir = archive.refusal url root) := by
  cases hsegments : segments url with
  | nil =>
      rw [Defined, hsegments] at hdefined
      exact hdefined.elim
  | cons root others =>
      by_cases hgranted : archive.Granted url
      · exact ⟨root, others, _, rfl, getExec_of_granted archive hsegments hgranted,
          .inl ⟨hgranted, rfl⟩⟩
      · exact ⟨root, others, _, rfl, getExec_of_refused archive hsegments hdefined hgranted,
          .inr ⟨hgranted, rfl⟩⟩

theorem looks_iff {url root dir : String} {others : List String}
    (hsegments : segments url = root :: others)
    (hdir : archive.Granted url ∧ dir = archive.directory url root ∨
      ¬archive.Granted url ∧ dir = archive.refusal url root) (method : GetMethod)
    (other : String) :
    archive.Looks url method other ↔
      (method ≠ .getLast → isRefusal other = false) ∧ other = dir := by
  rw [Looks, hsegments]
  apply and_congr_right'
  rcases hdir with ⟨hgranted, rfl⟩ | ⟨hgranted, rfl⟩ <;> simp [hgranted]

/-- The file that a request looks for may be reached exactly when its url leads there. -/
theorem allowed_iff_staysIn {url root dir name : String} {others : List String}
    (hsegments : segments url = root :: others)
    (hdir : archive.Granted url ∧ dir = archive.directory url root ∨
      ¬archive.Granted url ∧ dir = archive.refusal url root) (hname : '/' ∉ name.toList) :
    archive.Allowed cwd (resolve cwd (dir ++ "/" ++ name)) ↔ archive.StaysIn cwd url name := by
  rcases hdir with ⟨hgranted, rfl⟩ | ⟨hrefused, rfl⟩
  · rw [archive.resolve_directory cwd url root hname, allowed_walk_iff]
    refine ⟨fun h => ⟨fun other rest hother _ => ?_, fun _ _ _ hnot => absurd hgranted hnot⟩,
      fun h => h.granted root others hsegments hgranted⟩
    rw [hsegments, List.cons.injEq] at hother
    exact hother.1 ▸ h
  · rw [archive.resolve_refusal cwd url root hname, allowed_walk_iff]
    refine ⟨fun h => ⟨fun _ _ _ hgranted => absurd hgranted hrefused, fun other rest hother _ => ?_⟩,
      fun h => h.refused root others hsegments hrefused⟩
    rw [hsegments, List.cons.injEq] at hother
    exact hother.1 ▸ h

theorem videoAllowed_iff_videoStays (line : String) :
    archive.VideoAllowed files parse cwd line ↔ archive.VideoStays cwd files parse line := by
  rw [VideoAllowed, VideoStays]
  split
  · exact Iff.rfl
  · exact Iff.rfl
  · refine imp_congr_right fun _ => imp_congr_right fun _ => ?_
    rw [resolve, allowed_walk_iff]

end Confinement

/-- An archive with one root, where one subdirectory is visible. -/
def cameras : ArchiveManager where
  archiveHome := "/home/hat"
  accessInfo := SortedMap.empty.insert "archive" ⟨30, "/home/hat", ["camera"]⟩

/-- A file system with one file. -/
def onlyFile (path content : String) : FileSystem where
  content other := if other = path then some content else none
  isFile other := other = path
  entries _ := []

end Hat.ArchiveManager
