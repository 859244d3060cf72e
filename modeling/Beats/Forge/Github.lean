import Mathlib.Logic.Function.Basic
import Beats.Actuate.Runner

/-!
# The forge

`internal/forge/github`: a release is cut as a pull request on the branch of its key, and
withdrawn by closing the newest pull request of that branch.

GitHub is a map from a branch to its commit and its pull requests.  A pull request is refused for a
branch that has one open, or that has no commit that its base does not have.  The requests of the
client are answered one at a time, and any of them can fail, with or without having had its
effect.  `Hub.serve_cases` says what one request can do to the pull requests: settle some, or
open one on a branch that has none open.
-/

namespace Beats.Forge

open Lib Monitor Function List

/-! ## The client -/

/-- What the client fails with, and whether it is `ErrNotFound`. -/
structure ForgeError where
  notFound : Bool := false
  text : String := ""
deriving DecidableEq

def errNotFound : ForgeError := { notFound := true, text := "github: not found" }

/-- `ErrForgeStatus` with the status of a response. -/
def errForgeStatus (status : String) : ForgeError :=
  { text := "github: api returned a non-2xx status: " ++ status }

abbrev Files := String → Option String

/-- A commit, with its history: the numbers and the files of it and of the commits it was made from,
the newest first.  A commit and a blob are named by what they hold. -/
structure Commit where
  files : Files
  history : List (Nat × Files)

namespace Commit

def numbers (c : Commit) : List Nat := c.history.map Prod.fst

/-- The first commit of a repository. -/
def root (files : Files) : Commit := { files := files, history := [(0, files)] }

/-- One path changed, in a new commit. -/
def edit (c : Commit) (number : Nat) (path content : String) : Commit :=
  let files := update c.files path (some content)
  { files := files, history := (number, files) :: c.history }

/-- The commit is ahead of another: it was made from one that the other was not. -/
def Ahead (head base : Commit) : Prop := ∃ n ∈ head.numbers, n ∉ base.numbers

instance (head base : Commit) : Decidable (head.Ahead base) :=
  inferInstanceAs (Decidable (∃ n ∈ head.numbers, n ∉ base.numbers))

end Commit

/-- `pull`.  Its URL is its number. -/
structure Pull where
  number : Nat
  isOpen : Bool := true
  merged : Bool := false
deriving DecidableEq

/-- The requests of the client. -/
inductive Call where
  | refSHA (ref : String)
  | createRef (branch : String) (sha : Commit)
  | deleteRef (branch : String)
  | blobAt (path ref : String)
  | putContents (path branch content : String) (sha : Option String)
  | findPull (branch : String) (onlyOpen : Bool)
  | createPull (branch base notes : String)
  | closePull (number : Nat)

/-- What a request returns where it succeeds. -/
def Call.Value : Call → Type
  | .refSHA _ => Commit
  | .createRef _ _ => Unit
  | .deleteRef _ => Unit
  | .blobAt _ _ => String
  | .putContents _ _ _ _ => Unit
  | .findPull _ _ => Option Pull
  | .createPull _ _ _ => Nat
  | .closePull _ => Unit

/-- The interface of the client. -/
def iface : Iface where
  Call := Call
  Answer c := Except ForgeError c.Value

/-- `branchFor`: the key with every colon made a dash. -/
def branchFor (key : String) : String :=
  "thump/" ++ String.ofList (key.toList.map fun c => if c = ':' then '-' else c)

/-- `github.Client`, with the branch that releases target. -/
structure Client where
  branch : String := ""

/-- The branch that releases are merged into. -/
def Client.base (c : Client) : String := if c.branch ≠ "" then c.branch else "main"

section

def refSHA (ref : String) : Prog iface ForgeError (Except ForgeError Commit) :=
  @Prog.ask iface ForgeError (.refSHA ref)

def createRef (branch : String) (sha : Commit) : Prog iface ForgeError (Except ForgeError Unit) :=
  @Prog.ask iface ForgeError (.createRef branch sha)

def blobAt (path ref : String) : Prog iface ForgeError (Except ForgeError String) :=
  @Prog.ask iface ForgeError (.blobAt path ref)

def putContents (path branch content : String) (sha : Option String) :
    Prog iface ForgeError (Except ForgeError Unit) :=
  @Prog.ask iface ForgeError (.putContents path branch content sha)

/-- Asks for a pull of a branch. -/
def findPull (branch : String) (onlyOpen : Bool) :
    Prog iface ForgeError (Except ForgeError (Option Pull)) :=
  @Prog.ask iface ForgeError (.findPull branch onlyOpen)

def createPull (branch base notes : String) : Prog iface ForgeError (Except ForgeError Nat) :=
  @Prog.ask iface ForgeError (.createPull branch base notes)

def closePull (number : Nat) : Prog iface ForgeError (Except ForgeError Unit) :=
  @Prog.ask iface ForgeError (.closePull number)

def deleteRef (branch : String) : Prog iface ForgeError (Except ForgeError Unit) :=
  @Prog.ask iface ForgeError (.deleteRef branch)

end

/-- The branch of a release, which is created where it does not exist. -/
def Client.ensureBranch (c : Client) (branch : String) : Prog iface ForgeError Unit := do
  match ← refSHA branch with
  | .ok _ => return ()
  | .error err =>
    if !err.notFound then .fail err
    else do
      let baseSHA ← Prog.orFail
        (fun e : ForgeError => { e with text := "github: base ref " ++ c.base ++ ": " ++ e.text })
        (← refSHA c.base)
      Prog.orFail id (← createRef branch baseSHA)

/-- The content of a path of a branch, which is committed where it differs.  A path that is
absent reads as empty. -/
def ensureContent (path branch content : String) : Prog iface ForgeError Unit := do
  match ← blobAt path branch with
  | .ok current =>
    if current = content then return ()
    else do
      Prog.orFail id (← putContents path branch content (some current))
  | .error err =>
    if !err.notFound then .fail err
    else if "" = content then return ()
    else do
      Prog.orFail id (← putContents path branch content none)

/-- The branch, its content and its pull are made, where they are not there. -/
def Client.cut (c : Client) (rel : Actuate.Release) : Prog iface ForgeError Nat := do
  let branch := branchFor rel.key
  c.ensureBranch branch
  ensureContent rel.path branch rel.content
  match ← Prog.orFail id (← findPull branch true) with
  | some pr => return pr.number
  | none => do
    Prog.orFail id (← createPull branch c.base rel.notes)

/-- `Client.Withdraw`. -/
def withdraw (key : String) : Prog iface ForgeError Bool := do
  let branch := branchFor key
  match ← Prog.orFail id (← findPull branch false) with
  | none => return false
  | some pr =>
    if pr.merged then return true
    else if pr.isOpen then do
      Prog.orFail id (← closePull pr.number)
      Prog.orFail id (← deleteRef branch)
      return false
    else return false

/-! ## GitHub -/

/-- The commit and the pull requests of each branch.  The newest pull request comes first. -/
structure Hub where
  refs : String → Option Commit := fun _ => none
  pulls : String → List Pull := fun _ => []
  /-- The number of the newest pull request. -/
  opened : Nat := 0
  /-- The number of the newest commit. -/
  commits : Nat := 0

namespace Hub

/-- The pull request is no longer open. -/
def closed (p : Pull) : Pull := { p with isOpen := false }

/-- A new pull request of a branch. -/
def opening (h : Hub) (branch : String) : Hub :=
  { h with
    pulls := update h.pulls branch ({ number := h.opened + 1 } :: h.pulls branch)
    opened := h.opened + 1 }

def file (h : Hub) (branch path : String) : Option String := (h.refs branch).bind (·.files path)

/-- The branch has commits that the base has not. -/
def Ahead (h : Hub) (branch base : String) : Prop :=
  ∃ head ∈ h.refs branch, ∃ commit ∈ h.refs base, head.Ahead commit

instance (h : Hub) (branch base : String) : Decidable (h.Ahead branch base) :=
  inferInstanceAs (Decidable (∃ head ∈ h.refs branch, ∃ commit ∈ h.refs base, head.Ahead commit))

/-- The hub with one more commit on the branch. -/
def committing (h : Hub) (branch : String) (tip : Commit) (path content : String) : Hub :=
  { h with
    refs := update h.refs branch (some (tip.edit (h.commits + 1) path content))
    commits := h.commits + 1 }

def mapPulls (h : Hub) (f : Pull → Pull) : Hub := { h with pulls := fun b => (h.pulls b).map f }

/-- The answer to a request that GitHub takes, and its effect. -/
def effect (h : Hub) : (c : Call) → iface.Answer c × Hub
  | .refSHA ref =>
    match h.refs ref with
    | some commit => (.ok commit, h)
    | none => (.error errNotFound, h)
  | .createRef branch sha =>
    if h.refs branch = none ∧ ∀ n ∈ sha.numbers, n ≤ h.commits then
      (.ok (), { h with refs := update h.refs branch (some sha) })
    else (.error (errForgeStatus "422 Unprocessable Entity"), h)
  | .deleteRef branch =>
    match h.refs branch with
    | some _ => (.ok (),
        { h with
          refs := update h.refs branch none
          pulls := update h.pulls branch ((h.pulls branch).map closed) })
    | none => (.error (errForgeStatus "422 Unprocessable Entity"), h)
  | .blobAt path ref =>
    match h.file ref path with
    | some content => (.ok content, h)
    | none => (.error errNotFound, h)
  | .putContents path branch content sha =>
    match h.refs branch with
    | some tip =>
      if tip.files path = sha then (.ok (), h.committing branch tip path content)
      else (.error (errForgeStatus "409 Conflict"), h)
    | none => (.error errNotFound, h)
  | .findPull branch onlyOpen =>
    (.ok ((h.pulls branch).find? fun p => !onlyOpen || p.isOpen), h)
  | .createPull branch base _ =>
    if h.Ahead branch base ∧ ¬ (h.pulls branch).any Pull.isOpen then
      (.ok (h.opened + 1), h.opening branch)
    else (.error (errForgeStatus "422 Unprocessable Entity"), h)
  | .closePull number =>
    (.ok (), h.mapPulls fun p => if p.number = number then closed p else p)

end Hub

/-- What becomes of a request on its way. -/
inductive Luck where
  | fine
  /-- It fails without an effect. -/
  | refused (err : ForgeError)
  /-- It has its effect, and the response is lost. -/
  | lost (err : ForgeError)
deriving DecidableEq

/-- A call is served, refused, or served and its answer lost. -/
def Hub.serve (luck : Luck) (h : Hub) (c : Call) : iface.Answer c × Hub :=
  match luck with
  | .fine => h.effect c
  | .refused err => (.error err, h)
  | .lost err => (.error err, (h.effect c).2)

/-- What people do on GitHub. -/
inductive Review where
  | merge (number : Nat)
  | close (number : Nat)
  | push (branch : String) (commit : Commit)
  | delete (branch : String)

/-- The effect of what they do.  Of a merge it is the pull request that matters, so the files
of the base branch are left to a push. -/
def Hub.review (h : Hub) : Review → Hub
  | .merge number => h.mapPulls fun p =>
    if p.number = number ∧ p.isOpen then { p with isOpen := false, merged := true } else p
  | .close number => h.mapPulls fun p => if p.number = number then closed p else p
  | .push branch commit => { h with refs := update h.refs branch (some commit) }
  | .delete branch => (h.effect (.deleteRef branch)).2

namespace Hub

variable {h h' : Hub} {b : String}

def numbers (h : Hub) (branch : String) : List Nat := (h.pulls branch).map Pull.number

/-! ## What a request does to the pull requests -/

/-- A pull request that was at most settled. -/
def Settles (p p' : Pull) : Prop := p'.number = p.number ∧ (p'.isOpen = true → p.isOpen = true)

/-- Every pull request was at most settled. -/
structure Keeps (h h' : Hub) : Prop where
  opened : h'.opened = h.opened
  pulls : ∀ b, ∃ f : Pull → Pull, (∀ p, Settles p (f p)) ∧ h'.pulls b = (h.pulls b).map f

theorem Settles.refl (p : Pull) : Settles p p := ⟨rfl, id⟩

theorem settles_closed (p : Pull) : Settles p (closed p) := ⟨rfl, nofun⟩

theorem Keeps.of_pulls_eq (hp : h'.pulls = h.pulls) (ho : h'.opened = h.opened) : Keeps h h' where
  opened := ho
  pulls b := ⟨id, .refl, by rw [hp, map_id]⟩

theorem Keeps.refl (h : Hub) : Keeps h h := .of_pulls_eq rfl rfl

theorem keeps_mapPulls {f : Pull → Pull} (hf : ∀ p, Settles p (f p)) : Keeps h (h.mapPulls f) where
  opened := rfl
  pulls _ := ⟨f, hf, rfl⟩

theorem keeps_closing (h : Hub) (number : Nat) :
    Keeps h (h.mapPulls fun p => if p.number = number then closed p else p) := by
  refine keeps_mapPulls fun p => ?_
  split
  · exact settles_closed p
  · exact .refl p

theorem keeps_deleteRef (h : Hub) (branch : String) : Keeps h (h.effect (.deleteRef branch)).2 := by
  rw [effect]
  split
  · refine ⟨rfl, fun b => ?_⟩
    by_cases hb : b = branch
    · subst hb
      exact ⟨closed, settles_closed, update_self ..⟩
    · exact ⟨id, .refl, by simp [update_of_ne hb]⟩
  · exact .refl h

/-- A request settles pull requests at most, or it opens one on a branch that has none open. -/
theorem effect_cases (h : Hub) (c : Call) : Keeps h (h.effect c).2 ∨
      ∃ branch base notes, c = .createPull branch base notes ∧
        (∀ p ∈ h.pulls branch, p.isOpen = false) ∧ (h.effect c).2 = h.opening branch := by
  cases c with
  | refSHA ref =>
    rw [effect]
    split <;> exact .inl (.refl h)
  | createRef branch sha =>
    rw [effect]
    split
    · exact .inl (.of_pulls_eq rfl rfl)
    · exact .inl (.refl h)
  | deleteRef branch => exact .inl (keeps_deleteRef h branch)
  | blobAt path ref =>
    rw [effect]
    split <;> exact .inl (.refl h)
  | putContents path branch content sha =>
    rw [effect]
    split
    · split
      · exact .inl (.of_pulls_eq rfl rfl)
      · exact .inl (.refl h)
    · exact .inl (.refl h)
  | findPull branch onlyOpen => exact .inl (.refl h)
  | createPull branch base notes =>
    rw [effect]
    split
    next hc => exact .inr ⟨branch, base, notes, rfl, by simpa using hc.2, rfl⟩
    next => exact .inl (.refl h)
  | closePull number => exact .inl (keeps_closing h number)

theorem serve_cases (luck : Luck) (h : Hub) (c : Call) : Keeps h (h.serve luck c).2 ∨
      ∃ branch base notes, c = .createPull branch base notes ∧
        (∀ p ∈ h.pulls branch, p.isOpen = false) ∧ (h.serve luck c).2 = h.opening branch := by
  cases luck with
  | fine | lost _ => exact effect_cases h c
  | refused err => exact .inl (.refl h)

theorem keeps_review (h : Hub) (r : Review) : Keeps h (h.review r) := by
  cases r with
  | merge number =>
    refine keeps_mapPulls fun p => ?_
    split
    · exact ⟨rfl, nofun⟩
    · exact .refl p
  | close number => exact keeps_closing h number
  | push branch commit => exact .of_pulls_eq rfl rfl
  | delete branch => exact keeps_deleteRef h branch

theorem Keeps.numbers_eq (hk : Keeps h h') (b : String) : h'.numbers b = h.numbers b := by
  obtain ⟨f, hf, hp⟩ := hk.pulls b
  rw [numbers, hp, map_map]
  exact map_congr_left fun p _ => (hf p).1

@[simp] theorem numbers_opening (h : Hub) (b : String) :
    (h.opening b).numbers b = (h.opened + 1) :: h.numbers b := by
  simp [numbers, opening]

theorem numbers_opening_of_ne {b' : String} (hne : b' ≠ b) (h : Hub) :
    (h.opening b).numbers b' = h.numbers b' := by
  simp [numbers, opening, update_of_ne hne]

theorem numbers_subset_opening (h : Hub) (b b' : String) :
    h.numbers b' ⊆ (h.opening b).numbers b' := by
  by_cases hb : b' = b
  · subst hb
    rw [numbers_opening]
    exact subset_cons_self _ _
  · rw [numbers_opening_of_ne hb]
    exact Subset.refl _

/-! ## Well-formed hubs -/

/-- Only the newest pull request of a branch can be open, and a number names one branch. -/
structure Wf (h : Hub) : Prop where
  older : ∀ b, ∀ p ∈ (h.pulls b).tail, p.isOpen = false
  known : ∀ {b n}, n ∈ h.numbers b → n ≤ h.opened
  apart : ∀ {b b' n}, n ∈ h.numbers b → n ∈ h.numbers b' → b = b'

theorem wf_of_refs (refs : String → Option Commit) : Wf { refs } where
  older _ p hp := by cases hp
  known hn := by cases hn
  apart hn := by cases hn

theorem Wf.keeps (hw : Wf h) (hk : Keeps h h') : Wf h' where
  older b p' hp' := by
    obtain ⟨f, hf, hp⟩ := hk.pulls b
    rw [hp, ← map_tail] at hp'
    obtain ⟨p, hp, rfl⟩ := mem_map.mp hp'
    have hclosed := hw.older b p hp
    cases ho : (f p).isOpen with
    | false => rfl
    | true =>
      rw [(hf p).2 ho] at hclosed
      cases hclosed
  known hn := by
    rw [hk.numbers_eq] at hn
    rw [hk.opened]
    exact hw.known hn
  apart hn hn' := by
    rw [hk.numbers_eq] at hn hn'
    exact hw.apart hn hn'

theorem Wf.opening (hw : Wf h) (hb : ∀ p ∈ h.pulls b, p.isOpen = false) : Wf (h.opening b) where
  older b' p hp := by
    by_cases hne : b' = b
    · subst hne
      rw [opening] at hp
      simp only [update_self, tail_cons] at hp
      exact hb p hp
    · simp only [Hub.opening, update_of_ne hne] at hp
      exact hw.older b' p hp
  known {b' n} hn := by
    by_cases hne : b' = b
    · subst hne
      rw [numbers_opening] at hn
      rcases mem_cons.mp hn with rfl | hn
      · exact Nat.le_refl _
      · exact Nat.le_succ_of_le (hw.known hn)
    · rw [numbers_opening_of_ne hne] at hn
      exact Nat.le_succ_of_le (hw.known hn)
  apart {b₁ b₂ n} h₁ h₂ := by
    -- The new number is on its branch only, and every other was there before.
    have fresh {b'} (hn : h.opened + 1 ∈ (h.opening b).numbers b') : b' = b := by
      by_contra hne
      rw [numbers_opening_of_ne hne] at hn
      exact absurd (hw.known hn) (Nat.not_succ_le_self _)
    have before {b'} (hn : n ∈ (h.opening b).numbers b') (hne : n ≠ h.opened + 1) :
        n ∈ h.numbers b' := by
      by_cases hb' : b' = b
      · subst hb'
        rw [numbers_opening] at hn
        exact (mem_cons.mp hn).resolve_left hne
      · rwa [numbers_opening_of_ne hb'] at hn
    by_cases hn : n = h.opened + 1
    · subst hn
      rw [fresh h₁, fresh h₂]
    · exact hw.apart (before h₁ hn) (before h₂ hn)

/-! ## The newest pull request -/

def newest (h : Hub) (branch : String) : Option Nat := (h.numbers branch).head?

theorem mem_numbers_of_newest {n : Nat} (hn : h.newest b = some n) : n ∈ h.numbers b :=
  mem_of_head? hn

theorem Keeps.newest_eq (hk : Keeps h h') (b : String) : h'.newest b = h.newest b := by
  rw [newest, newest, hk.numbers_eq]

@[simp] theorem newest_opening (h : Hub) (b : String) :
    (h.opening b).newest b = some (h.opened + 1) := by
  rw [newest, numbers_opening, head?_cons]

theorem newest_opening_of_ne {b' : String} (hne : b' ≠ b) (h : Hub) :
    (h.opening b).newest b' = h.newest b' := by
  rw [newest, newest, numbers_opening_of_ne hne]

theorem Wf.newest_of_open (hw : Wf h) {p : Pull}
    (hp : (h.pulls b).find? (fun p => !true || p.isOpen) = some p) :
    h.newest b = some p.number := by
  have holder := hw.older b
  rw [newest, numbers]
  cases hps : h.pulls b with
  | nil =>
    rw [hps] at hp
    cases hp
  | cons q qs =>
    rw [hps] at hp holder
    rcases mem_cons.mp (mem_of_find?_eq_some hp) with rfl | hmem
    · rfl
    · have hopen : p.isOpen = true := by simpa using find?_some hp
      rw [holder p hmem] at hopen
      cases hopen

theorem find_newest (h : Hub) (b : String) :
    ((h.pulls b).find? fun p => !false || p.isOpen).map Pull.number = h.newest b := by
  rw [newest, numbers]
  cases h.pulls b with
  | nil => rfl
  | cons p ps => rfl

end Hub

/-! ## What the client asks for -/

/-- The pull that a call's answer names. -/
def named : Answered iface → Option Nat
  | ⟨.findPull _ true, .ok (some p)⟩ => some p.number
  | ⟨.createPull _ _ _, .ok n⟩ => some n
  | _ => none

/-- The monitor of a cut on the branch `b`.  Its state is the pull request that the last request
named. -/
def cutting (b : String) : Monitor iface (Option Nat) where
  permits _
    | .refSHA _ => True
    | .createRef branch _ => branch = b
    | .blobAt _ branch => branch = b
    | .putContents _ branch _ _ => branch = b
    | .findPull branch onlyOpen => branch = b ∧ onlyOpen = true
    | .createPull branch _ _ => branch = b
    | .deleteRef _ => False
    | .closePull _ => False
  next _ c r := named ⟨c, r⟩

theorem cutting_ensureBranch (c : Client) {b : String} {s : Option Nat} :
    (cutting b).Allows (fun _ _ => True) (c.ensureBranch b) s := by
  refine allows_ask_bind trivial fun r => ?_
  cases r with
  | ok _ => trivial
  | error err =>
    dsimp only
    split
    · trivial
    · refine allows_ask_bind trivial (either (fun _ => trivial) fun _ => ?_)
      refine allows_ask_bind rfl fun r => ?_
      cases r <;> trivial

theorem cutting_ensureContent {path b content : String} {s : Option Nat} :
    (cutting b).Allows (fun _ _ => True) (ensureContent path b content) s := by
  have put {sha : Option String} {s : Option Nat} : (cutting b).Allows (fun _ _ => True)
      (putContents path b content sha >>= fun r => Prog.orFail id r) s := by
    refine allows_ask_bind rfl fun r => ?_
    cases r <;> trivial
  refine allows_ask_bind rfl fun r => ?_
  cases r with
  | ok current =>
    dsimp only
    split
    · trivial
    · exact put
  | error err =>
    dsimp only
    split
    · trivial
    · split
      · trivial
      · exact put

/-- A cut works on its branch, and returns the pull request it found or opened last. -/
theorem cutting_cut (c : Client) (rel : Actuate.Release) {s : Option Nat} :
    (cutting (branchFor rel.key)).Allows (fun s out => ∀ n, out = .ok n → s = some n)
      (c.cut rel) s := by
  refine (cutting_ensureBranch c).bind ?_ nofun
  intro _ _ _
  refine cutting_ensureContent.bind ?_ nofun
  intro _ _ _
  refine allows_ask_bind ⟨rfl, rfl⟩ fun r => ?_
  match r with
  | .error err => exact nofun
  | .ok (some pr) =>
    intro n hn
    cases hn
    rfl
  | .ok none =>
    refine allows_ask_bind rfl (either (fun _ => nofun) fun _ => ?_)
    intro n' hn
    cases hn
    rfl

/-- The monitor of a withdrawal on the branch `b`.  Its state is what was found there. -/
def polling (b : String) : Monitor iface (Option (Option Pull)) where
  permits found
    | .findPull branch onlyOpen => branch = b ∧ onlyOpen = false
    | .closePull number => ∃ p, found = some (some p) ∧ p.number = number
    | .deleteRef branch => branch = b
    | _ => False
  next found
    | .findPull _ _, .ok p => some p
    | _, _ => found

/-- A withdrawal touches what it found on its branch, and answers whether that was merged. -/
theorem polling_withdraw (key : String) : (polling (branchFor key)).Allows
      (fun found out => ∀ accepted, out = .ok accepted →
        ∃ p, found = some p ∧ accepted = (p.map Pull.merged).getD false)
      (withdraw key) none := by
  refine allows_ask_bind ⟨rfl, rfl⟩ fun r => ?_
  match r with
  | .error err => exact nofun
  | .ok none =>
    intro accepted ha
    cases ha
    exact ⟨none, rfl, rfl⟩
  | .ok (some p) =>
    have answers (out : Bool) (hout : (.ok p.merged : Except ForgeError Bool) = .ok out) :
        ∃ p', some (some p) = some p' ∧ out = (p'.map Pull.merged).getD false := by
      cases hout
      exact ⟨some p, rfl, rfl⟩
    change Allows _ _ (if p.merged = true then _ else _) (some (some p))
    cases hm : p.merged with
    | true =>
      rw [hm] at answers
      exact answers
    | false =>
      rw [hm] at answers
      cases ho : p.isOpen with
      | false => exact answers
      | true =>
        refine allows_ask_bind ⟨p, rfl, rfl⟩ (either (fun _ => nofun) fun _ => ?_)
        exact allows_ask_bind rfl (either (fun _ => nofun) fun _ => answers)

/-- What the monitor has found it has found in the run. -/
theorem mem_of_polling {b : String} {p : Option Pull} {t : List (Answered iface)}
    {s : Option (Option Pull)} (h : (polling b).after s t = some p) :
    s = some p ∨ ∃ branch onlyOpen, ⟨.findPull branch onlyOpen, .ok p⟩ ∈ t := by
  induction t generalizing s with
  | nil => exact .inl h
  | cons a t ih =>
    obtain ⟨c, r⟩ := a
    rcases ih h with hs | ⟨branch, onlyOpen, hm⟩
    · cases c with
      | findPull branch onlyOpen =>
        cases r with
        | error err => exact .inl hs
        | ok p' =>
          obtain rfl : p' = p := Option.some.inj hs
          exact .inr ⟨branch, onlyOpen, mem_cons_self⟩
      | _ => exact .inl hs
    · exact .inr ⟨branch, onlyOpen, mem_cons_of_mem _ hm⟩

end Beats.Forge
