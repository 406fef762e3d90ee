import Cksol.Solana.Sdk

/-! # Blocks and the age of blockhashes

The part of Solana that decides whether a transaction can still land. Blocks are produced on top of each
other, forks are abandoned above the finalized height, and a transaction that uses the blockhash of a
block is only included in the blocks that follow it closely.
-/

namespace Cksol.Solana

/-- How many blocks after a block its blockhash is still accepted. -/
def maxProcessingAge : ℕ := 150

/-- A block with the signatures of its transactions. -/
structure ChainBlock where
  height : ℕ
  blockhash : Hash
  transactions : List Signature
deriving DecidableEq

/-- The blockhash of the transaction, if it is that of a produced block, is recent enough at the
height. -/
def Includable (recentBlockhash : Signature → Hash) (produced : List ChainBlock) (height : ℕ)
    (signature : Signature) : Prop :=
  ∀ block ∈ produced, block.blockhash = recentBlockhash signature →
    height ≤ block.height + maxProcessingAge

/-- The blocks of the current fork, those ever produced on any fork, and the height up to which blocks
are final. The blockhash that a transaction uses is given by its signature. -/
structure Chain (recentBlockhash : Signature → Hash) where
  blocks : List ChainBlock
  produced : List ChainBlock
  finalized : ℕ
  includable : ∀ block ∈ blocks, ∀ signature ∈ block.transactions,
    Includable recentBlockhash produced block.height signature

/-- What validators do to the chain. -/
inductive ChainMove where
  | produce (block : ChainBlock)
  | abandon (height : ℕ)
  | finalize (height : ℕ)

namespace Chain

variable {recentBlockhash : Signature → Hash} {signature : Signature}

def empty : Chain recentBlockhash := ⟨[], [], 0, by simp⟩

/-- The block can be the next one. -/
def Accepts (chain : Chain recentBlockhash) (block : ChainBlock) : Prop :=
  (∀ earlier ∈ chain.blocks, earlier.height < block.height) ∧ chain.finalized < block.height ∧
    (∀ earlier ∈ chain.produced, earlier.blockhash ≠ block.blockhash) ∧
    ∀ signature ∈ block.transactions,
      Includable recentBlockhash chain.produced block.height signature

instance (produced : List ChainBlock) (height : ℕ) (signature : Signature) :
    Decidable (Includable recentBlockhash produced height signature) :=
  inferInstanceAs (Decidable (∀ block ∈ produced, _ → _))

instance (chain : Chain recentBlockhash) (block : ChainBlock) : Decidable (chain.Accepts block) :=
  -- the transactions of the block are decided one by one, not all the values of a signature
  have : Decidable (∀ signature ∈ block.transactions,
      Includable recentBlockhash chain.produced block.height signature) := List.decidableBAll _ _
  inferInstanceAs (Decidable (_ ∧ _ ∧ _ ∧ _))

def produce (chain : Chain recentBlockhash) (block : ChainBlock) (h : chain.Accepts block) :
    Chain recentBlockhash where
  blocks := chain.blocks ++ [block]
  produced := chain.produced ++ [block]
  finalized := chain.finalized
  includable := by
    obtain ⟨hheight, -, -, hincludable⟩ := h
    -- a block that is not below the other satisfies the bound of the other's blockhash
    have hold {block' : ChainBlock} {signature : Signature} (hle : block'.height ≤ block.height)
        (hincludable : Includable recentBlockhash chain.produced block'.height signature) :
        Includable recentBlockhash (chain.produced ++ [block]) block'.height signature := by
      intro known hknown hhash
      rcases List.mem_append.mp hknown with hknown | hknown
      · exact hincludable known hknown hhash
      · obtain rfl := List.mem_singleton.mp hknown
        exact Nat.le_add_right_of_le hle
    intro block' hblock' signature hsignature
    rcases List.mem_append.mp hblock' with hblock' | hblock'
    · exact hold (Nat.le_of_lt (hheight _ hblock')) (chain.includable _ hblock' _ hsignature)
    · obtain rfl := List.mem_singleton.mp hblock'
      exact hold (Nat.le_refl _) (hincludable _ hsignature)

/-- The blocks above the height are no longer part of the chain. -/
def abandon (chain : Chain recentBlockhash) (height : ℕ) : Chain recentBlockhash where
  blocks := chain.blocks.filter (·.height ≤ height)
  produced := chain.produced
  finalized := chain.finalized
  includable block hblock := chain.includable block (List.mem_of_mem_filter hblock)

/-- The chain after a move; `none` when the move is not possible. -/
def move (chain : Chain recentBlockhash) : ChainMove → Option (Chain recentBlockhash)
  | .produce block => if h : chain.Accepts block then some (chain.produce block h) else none
  -- what is final stays
  | .abandon height => if chain.finalized ≤ height then some (chain.abandon height) else none
  | .finalize height =>
      if chain.finalized ≤ height ∧ ∃ block ∈ chain.blocks, block.height = height then
        some { chain with finalized := height }
      else none

/-- The reply to a status query has a status, at the position of its signature, for every transaction of
the blocks up to the height. -/
def Answers {α : Type} (chain : Chain recentBlockhash) (height : ℕ) (signatures : List Signature)
    (statuses : List (Option α)) : Prop :=
  ∀ entry ∈ signatures.zipIdx,
    (∃ block ∈ chain.blocks, block.height ≤ height ∧ entry.1 ∈ block.transactions) →
    statuses[entry.2]?.join.isSome

instance {α : Type} (chain : Chain recentBlockhash) (height : ℕ) (signatures : List Signature)
    (statuses : List (Option α)) : Decidable (chain.Answers height signatures statuses) :=
  inferInstanceAs (Decidable (∀ entry ∈ _, _ → _))

theorem Answers.notMem_of_none {α : Type} {chain : Chain recentBlockhash} {height : ℕ}
    {signatures : List Signature} {statuses : List (Option α)}
    (h : chain.Answers height signatures statuses)
    (hnone : (signature, none) ∈ signatures.zip statuses) :
    ∀ block ∈ chain.blocks, block.height ≤ height → signature ∉ block.transactions := by
  intro block hblock hheight hsignature
  obtain ⟨position, hposition⟩ := List.mem_iff_getElem?.mp hnone
  obtain ⟨hqueried, hstatus⟩ := List.getElem?_zip_eq_some.mp hposition
  have hsome := h (signature, position) (List.mk_mem_zipIdx_iff_getElem?.mpr hqueried)
    ⟨block, hblock, hheight, hsignature⟩
  rw [hstatus] at hsome
  cases hsome

/-! ## Transactions that can no longer land -/

/-- The blockhash of the transaction is too old for any block that is not final, and the transaction is
in no block. -/
structure Lapsed (chain : Chain recentBlockhash) (signature : Signature) : Prop where
  old : ∃ block ∈ chain.produced, block.blockhash = recentBlockhash signature ∧
    block.height + maxProcessingAge < chain.finalized
  absent : ∀ block ∈ chain.blocks, signature ∉ block.transactions

/-- A transaction that is in no block up to a final height, where its blockhash is too old. -/
theorem lapsed_of_absent {chain : Chain recentBlockhash} {known : ChainBlock} {height : ℕ}
    (hknown : known ∈ chain.produced) (hhash : known.blockhash = recentBlockhash signature)
    (hold : known.height + maxProcessingAge < height) (hfinal : height ≤ chain.finalized)
    (habsent : ∀ block ∈ chain.blocks, block.height ≤ height → signature ∉ block.transactions) :
    chain.Lapsed signature := by
  refine ⟨⟨known, hknown, hhash, Nat.lt_of_lt_of_le hold hfinal⟩, fun block hblock hmem => ?_⟩
  have hbound := chain.includable block hblock signature hmem known hknown hhash
  exact habsent block hblock (Nat.le_trans hbound (Nat.le_of_lt hold)) hmem

/-- Whatever happens to the chain, the transaction does not land. -/
theorem Lapsed.move {chain chain' : Chain recentBlockhash} (h : chain.Lapsed signature)
    {move : ChainMove} (hmove : chain.move move = some chain') :
    chain'.Lapsed signature := by
  obtain ⟨⟨known, hknown, hhash, hold⟩, habsent⟩ := h
  cases move with
  | produce block =>
      obtain ⟨haccepts, heq⟩ := Option.dite_none_right_eq_some.mp hmove
      obtain rfl := Option.some.inj heq
      refine ⟨⟨known, List.mem_append_left _ hknown, hhash, hold⟩, fun block' hblock' hmem => ?_⟩
      rcases List.mem_append.mp hblock' with hblock' | hblock'
      · exact habsent block' hblock' hmem
      · -- the new block is above the finalized height
        obtain rfl := List.mem_singleton.mp hblock'
        obtain ⟨-, hheight, -, hincludable⟩ := haccepts
        have hbound := hincludable signature hmem known hknown hhash
        omega
  | abandon height =>
      obtain ⟨-, heq⟩ := Option.ite_none_right_eq_some.mp hmove
      obtain rfl := Option.some.inj heq
      exact ⟨⟨known, hknown, hhash, hold⟩, fun block hblock =>
        habsent block (List.mem_of_mem_filter hblock)⟩
  | finalize height =>
      obtain ⟨⟨hle, -⟩, heq⟩ := Option.ite_none_right_eq_some.mp hmove
      obtain rfl := Option.some.inj heq
      exact ⟨⟨known, hknown, hhash, Nat.lt_of_lt_of_le hold hle⟩, habsent⟩

/-- Produced blocks stay so, and final heights stay final. -/
theorem move_mono {chain chain' : Chain recentBlockhash} {move : ChainMove}
    (hmove : chain.move move = some chain') :
    (∀ block ∈ chain.produced, block ∈ chain'.produced) ∧ chain.finalized ≤ chain'.finalized := by
  cases move with
  | produce block =>
      obtain ⟨haccepts, heq⟩ := Option.dite_none_right_eq_some.mp hmove
      obtain rfl := Option.some.inj heq
      exact ⟨fun block hblock => List.mem_append_left _ hblock, Nat.le_refl _⟩
  | abandon height =>
      obtain ⟨-, heq⟩ := Option.ite_none_right_eq_some.mp hmove
      obtain rfl := Option.some.inj heq
      exact ⟨fun block hblock => hblock, Nat.le_refl _⟩
  | finalize height =>
      obtain ⟨⟨hle, -⟩, heq⟩ := Option.ite_none_right_eq_some.mp hmove
      obtain rfl := Option.some.inj heq
      exact ⟨fun block hblock => hblock, hle⟩

end Chain

end Cksol.Solana
