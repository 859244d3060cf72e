import Beats.Forge.Github

/-!
# The branches of releases

`releaseKey` of `internal/actuate` keys the revert of a contract apart from its forward release, and
`branchFor` of `internal/forge/github` makes a branch of a key.  The first marks a revert by a word
behind a colon, and the second rewrites colons to dashes, which a name may have as well
(`separate_iff`).

The forward release of `a-revert` is on the branch of the revert of `a`, and a cut of the one
rewrites the other (`revert_overwritten`).
-/

namespace Beats.Forge

open Lib Actuate List

/-! ## Names -/

/-- The name as it goes into a branch's name. -/
def dashed (name : String) : List Char := name.toList.map fun c => if c = ':' then '-' else c

/-- The branch of the release of a contract in a direction. -/
def releaseBranch (name : String) (reverse : Bool) : String := branchFor (releaseKey name reverse)

/-- What stands behind the name of a contract in the branch of its release. -/
def directionMark (reverse : Bool) : List Char := if reverse then "-revert".toList else []

/-- The branch that a request writes to, or looks for pull requests on. -/
def Call.touches : Call → Option String
  | .createRef branch _ => some branch
  | .putContents _ branch _ _ => some branch
  | .findPull branch _ => some branch
  | .createPull branch _ _ => some branch
  | _ => none

/-- No two releases of the contracts have one branch, and whatever GitHub answers, the cut of one
does not touch the branch of another. -/
structure Separate (names : List String) : Prop where
  branches : ∀ n ∈ names, ∀ n' ∈ names, ∀ d d', (n, d) ≠ (n', d') →
    releaseBranch n d ≠ releaseBranch n' d'
  untouched : ∀ n ∈ names, ∀ n' ∈ names, ∀ d d', (n, d) ≠ (n', d') →
    ∀ (c : Client) (rel : Release) (t : List (Answered iface)) (out : Except ForgeError Nat),
      rel.key = releaseKey n d → (c.cut rel).Exits t out →
        ∀ a ∈ t, a.1.touches ≠ some (releaseBranch n' d')

theorem toList_branchFor (key : String) :
    (branchFor key).toList = "thump/".toList ++ dashed key := by
  rw [branchFor, String.toList_append]
  exact congrArg ("thump/".toList ++ ·) String.toList_ofList

theorem dashed_releaseKey (name : String) (reverse : Bool) :
    dashed (releaseKey name reverse) = dashed name ++ directionMark reverse := by
  cases reverse with
  | false => exact (append_nil (dashed name)).symm
  | true =>
    rw [releaseKey, if_pos rfl, dashed, String.toList_append, map_append]
    rfl

theorem releaseBranch_eq_iff {n n' : String} {d d' : Bool} :
    releaseBranch n d = releaseBranch n' d' ↔
      dashed n ++ directionMark d = dashed n' ++ directionMark d' := by
  rw [← String.toList_inj, releaseBranch, releaseBranch, toList_branchFor, toList_branchFor,
    append_cancel_left_eq, dashed_releaseKey, dashed_releaseKey]

theorem touches_of_cut {c : Client} {rel : Release} {t : List (Answered iface)}
    {out : Except ForgeError Nat} (h : (c.cut rel).Exits t out) {a : Answered iface} (ha : a ∈ t)
    {branch : String} (htouch : a.1.touches = some branch) : branch = branchFor rel.key := by
  obtain ⟨call, r⟩ := a
  obtain ⟨t₁, -, hpermits⟩ := (cutting_cut c rel (s := none)).permits_of_mem h ha
  cases call with
  | createRef _ _ | putContents _ _ _ _ | createPull _ _ _ =>
    exact (Option.some.inj htouch).symm.trans hpermits
  | findPull b onlyOpen => exact (Option.some.inj htouch).symm.trans hpermits.1
  | refSHA _ | deleteRef _ | blobAt _ _ | closePull _ => cases htouch

/-- The releases of contracts are separate exactly if their names are distinct with their colons as
dashes, and none is another one with the word for a revert behind it. -/
theorem separate_iff (names : List String) : Separate names ↔
    (∀ n ∈ names, ∀ n' ∈ names, dashed n = dashed n' → n = n') ∧
      ∀ n ∈ names, ∀ n' ∈ names, dashed n' ≠ dashed n ++ "-revert".toList := by
  constructor
  · intro h
    constructor
    · intro n hn n' hn' heq
      by_contra hne
      refine h.branches n hn n' hn' false false (fun hp => hne (congrArg Prod.fst hp)) ?_
      rw [releaseBranch_eq_iff, heq]
    · intro n hn n' hn' heq
      refine h.branches n' hn' n hn false true (fun hp => ?_) ?_
      · cases congrArg Prod.snd hp
      · rw [releaseBranch_eq_iff, heq]
        exact append_nil _
  · rintro ⟨hinj, hword⟩
    have hbranches : ∀ n ∈ names, ∀ n' ∈ names, ∀ d d', (n, d) ≠ (n', d') →
        releaseBranch n d ≠ releaseBranch n' d' := by
      intro n hn n' hn' d d' hne heq
      rw [releaseBranch_eq_iff] at heq
      match d, d' with
      | false, false =>
        exact hne (congrArg (·, false) (hinj n hn n' hn' (append_cancel_right heq)))
      | true, true =>
        exact hne (congrArg (·, true) (hinj n hn n' hn' (append_cancel_right heq)))
      | false, true => exact hword n' hn' n hn ((append_nil _).symm.trans heq)
      | true, false => exact hword n hn n' hn' ((append_nil _).symm.trans heq.symm)
    refine ⟨hbranches, ?_⟩
    intro n hn n' hn' d d' hne c rel t out hkey hcut a ha htouch
    refine hbranches n hn n' hn' d d' hne ?_
    rw [releaseBranch, ← hkey]
    exact (touches_of_cut hcut ha htouch).symm

/-- A repository with one file. -/
def flagsHub : Hub where
  refs := fun branch => if branch = "main" then some (.root fun _ => some "off") else none

def forwardRelease : Release where
  key := releaseKey "a-revert" false
  path := "flags.json"
  content := "on"

def revertRelease : Release where
  key := releaseKey "a" true
  path := "flags.json"
  content := "canary"

/-- A cut that sees no request fail: what it returns, and what it leaves. -/
def cutOn (h : Hub) (rel : Release) : Except ForgeError Nat × Hub :=
  Prog.runIn (fun h c => h.serve .fine c) h (Client.cut {} rel)

/-- The revert of the one contract finds the pull request of the other's forward release, and
rewrites its file. -/
theorem revert_overwritten :
    ("a-revert", false) ≠ ("a", true) ∧
    releaseBranch "a-revert" false = releaseBranch "a" true ∧
    (let released := cutOn flagsHub forwardRelease
     let reverted := cutOn released.2 revertRelease
     released.1 = .ok 1 ∧ reverted.1 = .ok 1 ∧
      released.2.file (releaseBranch "a-revert" false) "flags.json" = some "on" ∧
      reverted.2.file (releaseBranch "a-revert" false) "flags.json" = some "canary") ∧
    ¬ Separate ["a", "a-revert"] := by
  have hbranch : releaseBranch "a-revert" false = releaseBranch "a" true := by decide +kernel
  refine ⟨by decide, hbranch, by decide +kernel, fun h => ?_⟩
  exact h.branches "a-revert" (by decide) "a" (by decide) false true (by decide) hbranch

end Beats.Forge
