import Mathlib.Data.List.Basic

/-!
# A ledger of created coins and spent outpoints

A store that records every coin a transaction creates and every outpoint a transaction spends, and
deletes neither when another transaction arrives, holds its unspent coins implicitly: the created
coins whose outpoint no recorded spend names (`unspent`). Recording a transaction appends to both
lists (`record`). Out of order, a coin whose spender was recorded first never becomes unspent; in
causal order, recording is the operation on an unspent set that removes the spent outpoints and
adds the new coins (`unspent_record_of_causal`).

Removing transactions again (`forget`) removes their coins and their spends, so a coin that stays
and whose spenders were all removed is unspent again (`mem_unspent_forget`).
-/

namespace Coins

/-- The coins created, each under its outpoint, and the spends, each under the outpoint it
names. -/
structure Ledger (κ γ σ : Type) where
  created : List (κ × γ)
  spent : List (κ × σ)
  deriving DecidableEq, Repr

namespace Ledger

variable {κ γ σ : Type} [BEq κ] [LawfulBEq κ]

/-- The outpoints some spend names. -/
def spentKeys (ledger : Ledger κ γ σ) : List κ :=
  ledger.spent.map Prod.fst

/-- The created coins whose outpoint no spend names, in the order they were created. -/
def unspent (ledger : Ledger κ γ σ) : List (κ × γ) :=
  ledger.created.filter fun coin => !ledger.spentKeys.contains coin.1

/-- Record a transaction: its spends and its coins are appended. -/
def record (ledger : Ledger κ γ σ) (spends : List (κ × σ)) (creates : List (κ × γ)) :
    Ledger κ γ σ :=
  ⟨ledger.created ++ creates, ledger.spent ++ spends⟩

/-- Keep the coins and the spends of the transactions that stay. -/
def forget (ledger : Ledger κ γ σ) (keepCoin : γ → Bool) (keepSpend : σ → Bool) : Ledger κ γ σ :=
  ⟨ledger.created.filter fun coin => keepCoin coin.2, ledger.spent.filter fun spend => keepSpend spend.2⟩

variable {ledger : Ledger κ γ σ} {spends : List (κ × σ)} {creates : List (κ × γ)}

omit [BEq κ] [LawfulBEq κ] in
@[simp]
theorem spentKeys_record : (ledger.record spends creates).spentKeys =
    ledger.spentKeys ++ spends.map Prod.fst := by
  simp [spentKeys, record]

omit [BEq κ] [LawfulBEq κ] in
theorem mem_spentKeys {key : κ} : key ∈ ledger.spentKeys ↔ ∃ spend ∈ ledger.spent, spend.1 = key := by
  simp [spentKeys]

theorem mem_unspent {coin : κ × γ} :
    coin ∈ ledger.unspent ↔ coin ∈ ledger.created ∧ coin.1 ∉ ledger.spentKeys := by
  simp [unspent]

/-- Recording a transaction spends what it names among the coins that were unspent, and of its own
coins adds those that no spend, recorded before or with it, names. -/
theorem unspent_record : (ledger.record spends creates).unspent =
    ledger.unspent.filter (fun coin => !(spends.map Prod.fst).contains coin.1) ++
      creates.filter fun coin => !(ledger.spentKeys ++ spends.map Prod.fst).contains coin.1 := by
  rw [unspent, spentKeys_record, record, List.filter_append, unspent, List.filter_filter]
  congr 1
  apply List.filter_congr
  intro coin _
  by_cases before : coin.1 ∈ ledger.spentKeys <;>
    by_cases with_it : coin.1 ∈ spends.map Prod.fst <;> simp [before, with_it]

/-- In causal order, when no spend recorded so far or with the transaction names one of its new
coins, recording it removes the outpoints it spends and adds all its coins. -/
theorem unspent_record_of_causal
    (fresh : ∀ coin ∈ creates, coin.1 ∉ ledger.spentKeys ++ spends.map Prod.fst) :
    (ledger.record spends creates).unspent =
      ledger.unspent.filter (fun coin => !(spends.map Prod.fst).contains coin.1) ++ creates := by
  have kept : creates.filter (fun coin => !(ledger.spentKeys ++ spends.map Prod.fst).contains coin.1) =
      creates :=
    List.filter_eq_self.mpr fun coin member => by simpa using fresh coin member
  rw [unspent_record, kept]

omit [LawfulBEq κ] in
theorem unspent_forget {keepCoin : γ → Bool} {keepSpend : σ → Bool} :
    (ledger.forget keepCoin keepSpend).unspent =
      (ledger.created.filter fun coin => keepCoin coin.2).filter fun coin =>
        !((ledger.spent.filter fun spend => keepSpend spend.2).map Prod.fst).contains coin.1 :=
  rfl

/-- A coin is unspent once transactions are removed when it stays, and every spend that names it
is removed. -/
theorem mem_unspent_forget {keepCoin : γ → Bool} {keepSpend : σ → Bool} {coin : κ × γ} :
    coin ∈ (ledger.forget keepCoin keepSpend).unspent ↔
      coin ∈ ledger.created ∧ keepCoin coin.2 = true ∧
        ∀ spend ∈ ledger.spent, spend.1 = coin.1 → keepSpend spend.2 = false := by
  have removed_iff :
      ((ledger.spent.filter fun spend => keepSpend spend.2).map Prod.fst).contains coin.1 = false ↔
        ∀ spend ∈ ledger.spent, spend.1 = coin.1 → keepSpend spend.2 = false := by
    rw [Bool.eq_false_iff, ne_eq, List.contains_iff_mem]
    simp only [List.mem_map, List.mem_filter, not_exists, not_and]
    constructor
    · intro kept_none spend member same
      by_contra kept
      exact kept_none spend ⟨member, by simpa using kept⟩ same
    · intro removed spend ⟨member, kept⟩ same
      simp [removed spend member same] at kept
  simp only [unspent_forget, List.mem_filter, Bool.not_eq_true', removed_iff, and_assoc]

end Ledger

end Coins
