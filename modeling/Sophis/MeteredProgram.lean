import Sophis.MachineWord

namespace MeteredProgram

open List MachineWord

/-!
# Programs under two meters

A program burns fuel and calls its host. Fuel ends the program when it runs
out. A host call may have a price, which a second meter grants or refuses;
a refused call returns a code, and the program goes on.
-/

/-- A program with calls of type `Call` answered by values of type `Reply`.
Every budget of fuel is finite, so a well-founded tree describes any program
as far as a budget can take it. -/
inductive Program (Call Reply Result : Type) where
  | finish (result : Result)
  | trap (message : String)
  | work (units : UInt64) (next : Program Call Reply Result)
  | call (request : Call) (resume : Reply → Program Call Reply Result)

/-- What a host makes of a call: an answer for nothing, or an answer for a
price with a code for the case that the price is refused. -/
inductive Response (World Reply : Type) where
  | free (world : World) (reply : Reply)
  | priced (price : UInt64) (refused : Reply) (world : World) (reply : Reply)

/-- The world after an answer that is not refused. -/
def Response.world {World Reply : Type} : Response World Reply → World
  | .free world _ => world
  | .priced _ _ world _ => world

/-- A price and whether it was paid. -/
structure Charge where
  price : UInt64
  granted : Bool
  deriving Repr, DecidableEq

def grantedSum (charges : List Charge) : Nat :=
  exactSum ((charges.filter Charge.granted).map Charge.price)

/-- What a running program changes. The charges are recorded, latest first,
and nothing reads them. -/
structure Account (World : Type) where
  fuel : UInt64
  used : UInt64
  world : World
  charges : List Charge

/-- Takes what is used so far and a price to what is used then, if the price
is granted. -/
abbrev Meter := UInt64 → UInt64 → Option UInt64

/-- Grants everything. -/
def unlimited : Meter := fun used price => some (saturatingAdd used price)

/-- Grants what stays within a limit. -/
def limited (limit : UInt64) : Meter := fun used price =>
  let total := saturatingAdd used price
  if total > limit then none else some total

variable {Call Reply Result World : Type}

def Account.settle (meter : Meter) (account : Account World) :
    Response World Reply → Account World × Reply
  | .free world reply => ({ account with world := world }, reply)
  | .priced price refused world reply =>
    match meter account.used price with
    | none => ({ account with charges := ⟨price, false⟩ :: account.charges }, refused)
    | some used =>
      ({ account with
        used := used
        world := world
        charges := ⟨price, true⟩ :: account.charges }, reply)

def outOfFuel : String := "all fuel consumed by WebAssembly"

def Program.run (host : World → Call → Response World Reply) (meter : Meter) :
    Program Call Reply Result → Account World → Except String Result × Account World
  | .finish result, account => (.ok result, account)
  | .trap message, account => (.error message, account)
  | .work units next, account =>
    if account.fuel < units then
      (.error outOfFuel, { account with fuel := 0 })
    else
      next.run host meter { account with fuel := account.fuel - units }
  | .call request resume, account =>
    let settled := account.settle meter (host account.world request)
    (resume settled.2).run host meter settled.1

variable (host : World → Call → Response World Reply) (meter : Meter)

theorem Account.charges_settle (account : Account World) (response : Response World Reply) :
    account.charges <:+ (account.settle meter response).1.charges := by
  cases response with
  | free world reply => exact suffix_refl _
  | priced price refused world reply =>
    unfold settle
    dsimp only
    split
    · exact suffix_cons _ _
    · exact suffix_cons _ _

theorem Program.charges_run (program : Program Call Reply Result) (account : Account World) :
    account.charges <:+ (program.run host meter account).2.charges := by
  induction program generalizing account with
  | finish | trap => exact suffix_refl _
  | work units next ih =>
    unfold run
    split
    · exact suffix_refl _
    · exact ih { account with fuel := account.fuel - units }
  | call request resume ih => exact (account.charges_settle meter _).trans (ih _ _)

theorem grantedSum_le_of_suffix {prior later : List Charge} (grown : prior <:+ later) :
    grantedSum prior ≤ grantedSum later :=
  exactSum_le_of_sublist ((grown.sublist.filter _).map _)

@[simp] theorem grantedSum_cons_granted (price : UInt64) (charges : List Charge) :
    grantedSum (⟨price, true⟩ :: charges) = price.toNat + grantedSum charges := by
  simp [grantedSum]

variable {host : World → Call → Response World Reply} {limit : UInt64}

def Account.Balanced (account : Account World) : Prop :=
  account.used.toNat = grantedSum account.charges

theorem limited_of_le {used price : UInt64} (room : used.toNat + price.toNat ≤ limit.toNat) :
    limited limit used price = unlimited used price ∧
      (saturatingAdd used price).toNat = used.toNat + price.toNat := by
  have bound := limit.toNat_lt
  have exact : (saturatingAdd used price).toNat = used.toNat + price.toNat := by
    rw [toNat_saturatingAdd]
    omega
  refine ⟨?_, exact⟩
  have within : ¬ saturatingAdd used price > limit := by
    rw [gt_iff_lt, UInt64.lt_iff_toNat_lt, exact]
    omega
  simp [limited, unlimited, within]

variable {program : Program Call Reply Result} {account : Account World}

/-- A program that asks for no more than the limit in all does not notice
it. -/
theorem Program.run_limited_of_le (balanced : account.Balanced)
    (modest : grantedSum (program.run host unlimited account).2.charges ≤ limit.toNat) :
    program.run host (limited limit) account = program.run host unlimited account := by
  induction program generalizing account with
  | finish result => rfl
  | trap message => rfl
  | work units next ih =>
    unfold run at modest ⊢
    by_cases empty : account.fuel < units
    · rw [if_pos empty, if_pos empty]
    · rw [if_neg empty] at modest
      rw [if_neg empty, if_neg empty]
      have eq : Account.Balanced { account with fuel := account.fuel - units } := balanced
      exact ih eq modest
  | call request resume ih =>
    unfold run at modest ⊢
    dsimp only at modest ⊢
    cases answered : host account.world request with
    | free world reply =>
      rw [answered] at modest
      have eq : Account.Balanced { account with world := world } := balanced
      exact ih reply eq modest
    | priced price refused world reply =>
      rw [answered] at modest
      -- the charge stays on record, so it fits the limit by itself
      have kept := grantedSum_le_of_suffix ((resume reply).charges_run host unlimited
          (account.settle unlimited (.priced price refused world reply)).1)
      have room : account.used.toNat + price.toNat ≤ limit.toNat := by
        rw [balanced, Nat.add_comm, ← grantedSum_cons_granted]
        exact kept.trans modest
      obtain ⟨granted, exact⟩ := limited_of_le room
      have settled : account.settle (limited limit) (.priced price refused world reply) =
          account.settle unlimited (.priced price refused world reply) := by
        simp only [Account.settle, granted]
      rw [settled]
      apply ih _ _ modest
      simp only [Account.Balanced, Account.settle, unlimited, exact, grantedSum_cons_granted]
      rw [balanced, Nat.add_comm]

/-- A program to which nothing is refused does not notice the limit. -/
theorem Program.run_unlimited_of_granted (granted :
      ∀ charge ∈ (program.run host (limited limit) account).2.charges, charge.granted = true) :
    program.run host unlimited account = program.run host (limited limit) account := by
  induction program generalizing account with
  | finish result => rfl
  | trap message => rfl
  | work units next ih =>
    unfold run at granted ⊢
    by_cases empty : account.fuel < units
    · rw [if_pos empty, if_pos empty]
    · rw [if_neg empty] at granted
      rw [if_neg empty, if_neg empty]
      exact ih granted
  | call request resume ih =>
    unfold run at granted ⊢
    dsimp only at granted ⊢
    cases answered : host account.world request with
    | free world reply =>
      rw [answered] at granted
      exact ih reply granted
    | priced price refused world reply =>
      rw [answered] at granted
      have settled : account.settle unlimited (.priced price refused world reply) =
          account.settle (limited limit) (.priced price refused world reply) := by
        cases decision : limited limit account.used price with
        | none =>
          simp only [Account.settle, decision] at granted
          -- a refusal would stay on record
          have recorded := ((resume refused).charges_run host (limited limit) { account with
                charges := ⟨price, false⟩ :: account.charges }).subset
              mem_cons_self
          exact nomatch granted _ recorded
        | some used =>
          have total : saturatingAdd account.used price = used := by
            unfold limited at decision
            dsimp only at decision
            split at decision
            · cases decision
            · exact Option.some.inj decision
          simp only [Account.settle, decision, unlimited, total]
      rw [settled]
      exact ih _ granted

/-- An unlimited meter refuses nothing. -/
theorem Program.granted_run_unlimited
    (granted : ∀ charge ∈ account.charges, charge.granted = true) :
    ∀ charge ∈ (program.run host unlimited account).2.charges, charge.granted = true := by
  induction program generalizing account with
  | finish | trap => exact granted
  | work units next ih =>
    unfold run
    split
    · exact granted
    · exact ih granted
  | call request resume ih =>
    apply ih
    cases host account.world request with
    | free world reply => exact granted
    | priced price refused world reply =>
      intro charge mem
      rcases mem_cons.mp mem with rfl | prior
      · rfl
      · exact granted charge prior

end MeteredProgram
