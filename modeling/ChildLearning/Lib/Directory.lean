import Mathlib.Logic.Function.Basic
import ChildLearning.Lib.Refinement

namespace Directory

open Transition

/-!
# Directories of accounts

What an account service is for, as one sequential server: every key has at most one account,
which the first request to create it fixes for good; an account made with a secret opens to
that secret alone, and a federated account to nobody but the identity provider.

`served_eq_first` is the closed form of the server's state: the account of a key is the one
that the first request to create it describes.
-/

/-- What opens an account. -/
inductive Credential (π : Type*) where
  | secret (p : π)
  | federated
  deriving DecidableEq

/-- An account: the name it shows, and what opens it. -/
structure Account (ν π : Type*) where
  name : ν
  credential : Credential π

/-- A request for the account of a key. -/
inductive Request (κ ν π : Type*) where
  /-- Create an account with a secret. -/
  | register (key : κ) (name : ν) (secret : π)
  /-- The identity provider vouches for the key: enter, or create the account. -/
  | vouched (key : κ) (name : ν)
  /-- Enter with a secret. -/
  | enter (key : κ) (secret : π)

variable {κ ν π : Type*}

/-- The key that the request is for. -/
def Request.key : Request κ ν π → κ
  | .register key _ _ => key
  | .vouched key _    => key
  | .enter key _      => key

/-- The account that the request would create, if it creates one. -/
def Request.account? : Request κ ν π → Option (Account ν π)
  | .register _ name secret => some ⟨name, .secret secret⟩
  | .vouched _ name         => some ⟨name, .federated⟩
  | .enter _ _              => none

variable [DecidableEq κ]

/-- The account that a request would create for this key. -/
def creates (key : κ) (request : Option (Request κ ν π)) : Option (Account ν π) :=
  request.bind fun request => if request.key = key then request.account? else none

@[simp] theorem creates_none (key : κ) : creates (ν := ν) (π := π) key none = none := rfl

@[simp] theorem creates_register (key k : κ) (name : ν) (secret : π) :
    creates key (some (.register k name secret))
      = if k = key then some ⟨name, .secret secret⟩ else none := rfl

@[simp] theorem creates_vouched (key k : κ) (name : ν) :
    creates (π := π) key (some (.vouched k name)) = if k = key then some ⟨name, .federated⟩ else none :=
  rfl

@[simp] theorem creates_enter (key k : κ) (secret : π) :
    creates (ν := ν) key (some (.enter k secret)) = none := by
  simp [creates, Request.account?]

variable [DecidableEq π]

/-- The name of the account, if the credential opens it. -/
def Account.opens (a : Account ν π) (credential : Credential π) : Option ν :=
  if a.credential = credential then some a.name else none

/-- Serve one request, or none: the name of the account entered, if one is, and the directory
    afterwards. -/
def serve (d : κ → Option (Account ν π)) :
    Option (Request κ ν π) → Option ν × (κ → Option (Account ν π))
  | none => (none, d)
  | some (.register key name secret) =>
    match d key with
    | some _ => (none, d)
    | none   => (some name, Function.update d key (some ⟨name, .secret secret⟩))
  | some (.vouched key name) =>
    match d key with
    | some a => (a.opens .federated, d)
    | none   => (some name, Function.update d key (some ⟨name, .federated⟩))
  | some (.enter key secret) => ((d key).bind fun a => a.opens (.secret secret), d)

/-- One request: an account that exists stays, and else the request creates its own. -/
theorem serve_snd (d : κ → Option (Account ν π)) (request : Option (Request κ ν π)) (key : κ) :
    (serve d request).2 key = (d key).or (creates key request) := by
  have hupdate (k : κ) (a : Account ν π) (h : d k = none) :
      Function.update d k (some a) key = (d key).or (if k = key then some a else none) := by
    by_cases hkey : k = key
    · subst hkey; simp [h]
    · simp [hkey, Function.update_of_ne (Ne.symm hkey)]
  have hkeep (k : κ) (new a : Account ν π) (h : d k = some a) :
      d key = (d key).or (if k = key then some new else none) := by
    by_cases hkey : k = key
    · subst hkey; simp [h]
    · simp [hkey]
  match request with
  | none => simp [serve]
  | some (.enter _ _) => simp [serve]
  | some (.register k name secret) =>
    cases h : d k with
    | none => simpa [serve, h] using hupdate k ⟨name, .secret secret⟩ h
    | some a => simpa [serve, h] using hkeep k ⟨name, .secret secret⟩ a h
  | some (.vouched k name) =>
    cases h : d k with
    | none => simpa [serve, h] using hupdate k ⟨name, .federated⟩ h
    | some a => simpa [serve, h] using hkeep k ⟨name, .federated⟩ a h

/-- When a request for a key with this account is granted, under which name. -/
def Granted (account : Option (Account ν π)) : Request κ ν π → ν → Prop
  | .register _ name _, stored => account = none ∧ name = stored
  | .vouched _ name, stored    =>
    (account = none ∧ name = stored) ∨ account = some ⟨stored, .federated⟩
  | .enter _ secret, stored    => account = some ⟨stored, .secret secret⟩

/-- An account opens to its own credential. -/
theorem opens_eq_some {a : Account ν π} {credential : Credential π} {stored : ν} :
    a.opens credential = some stored ↔ a = ⟨stored, credential⟩ := by
  unfold Account.opens
  obtain ⟨name, own⟩ := a
  simp [and_comm]

/-- A request is served as it is granted. -/
theorem serve_fst_eq_some (d : κ → Option (Account ν π)) (request : Request κ ν π) (stored : ν) :
    (serve d (some request)).1 = some stored ↔ Granted (d request.key) request stored := by
  cases request with
  | register key name secret =>
    unfold Granted
    cases h : d key with
    | none => simp [serve, h, Request.key]
    | some a => simp [serve, h, Request.key]
  | vouched key name =>
    unfold Granted
    cases h : d key with
    | none => simp [serve, h, Request.key]
    | some a => simp [serve, h, Request.key, opens_eq_some]
  | enter key secret =>
    unfold Granted
    cases h : d key with
    | none => simp [serve, h, Request.key]
    | some a => simp [serve, h, Request.key, opens_eq_some]

/-- **First come, first served.** The account of a key is the one it had, or else the one
    that the first request to create it describes. -/
theorem served_eq_first (d : κ → Option (Account ν π)) (requests : List (Option (Request κ ν π)))
    (key : κ) : served serve d requests key = (d key).or (requests.findSome? (creates key)) := by
  induction requests generalizing d with
  | nil => simp
  | cons request requests ih =>
    rw [served_cons, ih, serve_snd, List.findSome?_cons, Option.or_assoc]
    cases creates key request <;> rfl

end Directory
