import Ns3.Internet.TcpRxBuffer
import Ns3.Time

/-!
# `TcpTxBuffer`

`none` is a failed `NS_ASSERT`, a fatal error or undefined behaviour. The rate
information of an item goes to callbacks only and is left out.
-/

namespace Ns3.Internet

open SequenceNumber32

structure TcpTxItem where
  startSeq : SequenceNumber32
  packet : List UInt8
  retrans : Bool
  lost : Bool
  sacked : Bool
  lastSent : Time
  deriving DecidableEq

namespace TcpTxItem

/-- `new TcpTxItem`, with `Time::Max ()`. -/
def create (packet : List UInt8) : TcpTxItem :=
  ⟨.of 0, packet, false, false, false, 2 ^ 63 - 1⟩

/-- `m_packet->GetSize ()` -/
def size (item : TcpTxItem) : Nat := item.packet.length

/-- The item as `Update` marks it. -/
def sack (item : TcpTxItem) : TcpTxItem := { item with lost := false, sacked := true }

end TcpTxItem

/-- An iterator of `m_sentList`. One whose node is gone is `dangling`, as is one
that has never been set. -/
inductive Iterator
  | end_
  | item (i : Nat)
  | dangling
  deriving DecidableEq

namespace Iterator

/-- A node has been inserted before the `i`-th. -/
def inserted (i : Nat) : Iterator → Iterator
  | item k => if i ≤ k then item (k + 1) else item k
  | it => it

/-- The `i`-th node has been erased. -/
def erased (i : Nat) : Iterator → Iterator
  | item k => if k = i then dangling else if i < k then item (k - 1) else item k
  | it => it

end Iterator

structure TcpTxBuffer where
  appList : List TcpTxItem
  sentList : List TcpTxItem
  maxBuffer : Nat
  size : Nat
  sentSize : Nat
  firstByteSeq : SequenceNumber32
  highestSack : Iterator × SequenceNumber32
  lostOut : Nat
  sackedOut : Nat
  retrans : Nat
  dupAckThresh : Nat
  segmentSize : Nat
  renoSack : Bool
  sackEnabled : Bool
  deriving DecidableEq

namespace TcpTxBuffer

def create (n : SequenceNumber32) : TcpTxBuffer where
  appList := []
  sentList := []
  maxBuffer := 32768
  size := 0
  sentSize := 0
  firstByteSeq := n
  highestSack := (.dangling, .of 0)
  lostOut := 0
  sackedOut := 0
  retrans := 0
  dupAckThresh := 0
  segmentSize := 0
  renoSack := false
  sackEnabled := true

variable (b : TcpTxBuffer)

def tailSequence : SequenceNumber32 := b.firstByteSeq.add b.size

def available : Nat := sub32 b.maxBuffer b.size

def setHeadSequence (seq : SequenceNumber32) : Option TcpTxBuffer :=
  match b.sentList with
  | [] => some { b with firstByteSeq := seq, highestSack := (.end_, .of 0) }
  | _ :: _ => none

def add (p : List UInt8) : TcpTxBuffer × Bool :=
  if p.length ≤ b.available then
    (if 0 < p.length then
      { b with appList := b.appList ++ [.create p], size := add32 b.size p.length }
    else b, true)
  else
    (b, false)

def sizeFromSequence (seq : SequenceNumber32) : Nat :=
  if Ge b.tailSequence seq then b.tailSequence.sub seq else 0

/-! ## `GetPacketFromList` -/

/-- The two parts of an item: `SplitItems`. -/
def splitItems (t2 : TcpTxItem) (size : Nat) : TcpTxItem × TcpTxItem :=
  ({ t2 with packet := createFragment t2.packet 0 size },
    { t2 with packet := t2.packet.drop size, startSeq := t2.startSeq.add size })

/-- With `m_retrans`. -/
def mergeItems (retrans : Nat) (t1 t2 : TcpTxItem) : Option (Nat × TcpTxItem) :=
  if t1.sacked = t2.sacked ∧ t1.lost = t2.lost then
    some (
      if t1.retrans = t2.retrans then retrans
      else if t1.retrans then sub32 retrans t1.size
      else sub32 retrans t2.size,
      { t1 with
        retrans := t1.retrans && t2.retrans
        lastSent := if t1.lastSent < t2.lastSent then t2.lastSent else t1.lastSent
        packet := t1.packet ++ t2.packet })
  else
    none

/-- A list that is edited, with `m_retrans` and an iterator of the list. -/
structure Edited where
  list : List TcpTxItem
  retrans : Nat
  it : Iterator

/-- The walk to the packet with `seq` in it: the packets before, where it begins,
itself, and the packets after. The items of the sent list have to start at
`listStartFrom` or later. -/
def seek (sent : Bool) (listStartFrom seq : SequenceNumber32) :
    SequenceNumber32 → List TcpTxItem →
      Option (List TcpTxItem × SequenceNumber32 × TcpTxItem × List TcpTxItem)
  | _, [] => none
  | beginOfCurrentPacket, currentItem :: rest =>
    if sent ∧ ¬ Ge currentItem.startSeq listStartFrom then none
    else
      let next := beginOfCurrentPacket.add currentItem.size
      if Lt seq next then
        some ([], beginOfCurrentPacket, currentItem, rest)
      else
        (seek sent listStartFrom seq next rest).map fun (before, found) =>
          (currentItem :: before, found)

/-- With the place of the item returned. An item that starts at `seq` and ends
where it is to end is always the one found first, because the function is called
again after each change. -/
def getPacketFromList (sent : Bool) (listStartFrom : SequenceNumber32) :
    (fuel : Nat) → Edited → (numBytes : Nat) → (seq : SequenceNumber32) → Option (Edited × Nat)
  | 0, _, _, _ => none
  | fuel + 1, e, numBytes, seq => do
    let (before, beginOfCurrentPacket, currentItem, rest) ←
      seek sent listStartFrom seq listStartFrom e.list
    let i := before.length
    if seq = beginOfCurrentPacket then
      if Le (seq.add numBytes) (beginOfCurrentPacket.add currentItem.size) then
        if numBytes = currentItem.size then
          return (e, i)
        else if numBytes < currentItem.size then
          let (firstPart, currentItem) := splitItems currentItem numBytes
          return ({ e with
              list := before ++ firstPart :: currentItem :: rest
              it := e.it.inserted i }, i)
        else
          -- the loop goes on with the same packet for ever
          none
      else
        match rest with
        | [] => return (e, i)
        | next :: rest =>
          let (retrans, merged) ← mergeItems e.retrans currentItem next
          getPacketFromList sent listStartFrom fuel
            ⟨before ++ merged :: rest, retrans, e.it.erased (i + 1)⟩ numBytes seq
    else if seq.Gt beginOfCurrentPacket then
      let (firstPart, currentItem) :=
        splitItems currentItem (seq.sub beginOfCurrentPacket)
      getPacketFromList sent listStartFrom fuel
        { e with list := before ++ firstPart :: currentItem :: rest, it := e.it.inserted i }
        numBytes seq
    else
      none

/-- One split, and a merge for each of the other items, are enough. -/
def editFuel (list : List TcpTxItem) : Nat := list.length + 3

/-! ## `CopyFromSequence` -/

/-- How much of the item at `seq` and the one after it may be sent together. -/
def mergeLimit (seq : SequenceNumber32) (numBytes : Nat) : List TcpTxItem → Nat
  | [] => numBytes
  | it :: rest =>
    if it.startSeq = seq then
      match rest with
      | [] => min numBytes it.size
      | next :: _ =>
        if !next.sacked && it.lost == next.lost then min numBytes (add32 it.size next.size)
        else min numBytes it.size
    else mergeLimit seq numBytes rest

/-- With the place of the item in the sent list. -/
def getTransmittedSegment (numBytes : Nat) (seq : SequenceNumber32) : Option (TcpTxBuffer × Nat) :=
  if Ge seq b.firstByteSeq ∧ numBytes ≤ b.sentSize ∧ b.sentList ≠ [] then do
    let (e, i) ← getPacketFromList true b.firstByteSeq (editFuel b.sentList)
      ⟨b.sentList, b.retrans, b.highestSack.1⟩ (mergeLimit seq numBytes b.sentList) seq
    let item ← e.list[i]?
    return ({ b with
        sentList := e.list.set i { item with retrans := true }
        retrans := if item.retrans then e.retrans else add32 e.retrans item.size
        highestSack := (e.it, b.highestSack.2) }, i)
  else
    none

def getNewSegment (numBytes : Nat) : Option (TcpTxBuffer × Nat) := do
  let startOfAppList := b.firstByteSeq.add b.sentSize
  let (e, i) ← getPacketFromList false startOfAppList (editFuel b.appList)
    ⟨b.appList, b.retrans, .end_⟩ numBytes startOfAppList
  let item ← e.list[i]?
  return ({ b with
      appList := e.list.eraseIdx i
      sentList := b.sentList ++ [{ item with startSeq := startOfAppList }]
      sentSize := add32 b.sentSize item.size
      retrans := e.retrans }, b.sentList.length)

/-- Where the bytes asked for are: a call for the part that was sent already takes
a second round. -/
def copyBytes : (depth : Nat) → (numBytes : Nat) → (seq : SequenceNumber32) →
    Option (TcpTxBuffer × Option Nat)
  | 0, _, _ => none
  | depth + 1, numBytes, seq =>
    if b.firstByteSeq.Gt seq then none
    else
      let s := min numBytes (b.sizeFromSequence seq)
      let sentEnd := b.firstByteSeq.add b.sentSize
      if s = 0 then some (b, none)
      else if Ge sentEnd (seq.add s) then do
        let (b, i) ← b.getTransmittedSegment s seq
        let outItem ← b.sentList[i]?
        if outItem.sacked then none else return (b, some i)
      else if Le sentEnd seq then
        if sentEnd = seq then do
          let (b, i) ← b.getNewSegment s
          let outItem ← b.sentList[i]?
          if outItem.retrans then none else return (b, some i)
        else none
      -- compared as plain numbers
      else if sentEnd.value > seq.value ∧ sentEnd.value < add32 seq.value s then
        copyBytes depth (sub32 sentEnd.value seq.value) seq
      else
        none

/-- With the item returned, if any. -/
def copyFromSequence (now : Time) (numBytes : Nat) (seq : SequenceNumber32) :
    Option (TcpTxBuffer × Option TcpTxItem) := do
  match ← b.copyBytes 2 numBytes seq with
  | (b, none) => return (b, none)
  | (b, some i) =>
    let outItem ← b.sentList[i]?
    let outItem := { outItem with lastSent := now }
    if Ge outItem.startSeq b.firstByteSeq then
      return ({ b with sentList := b.sentList.set i outItem }, some outItem)
    else
      none

/-! ## The scoreboard -/

/-- With `m_sackedOut`, `m_retrans` and `m_lostOut` large enough. -/
def removeFromCounts (item : TcpTxItem) (size : Nat) : Option TcpTxBuffer :=
  if (item.sacked → size ≤ b.sackedOut) ∧ (item.retrans → size ≤ b.retrans) ∧
      (item.lost → size ≤ b.lostOut) then
    some { b with
      sackedOut := if item.sacked then sub32 b.sackedOut size else b.sackedOut
      retrans := if item.retrans then sub32 b.retrans size else b.retrans
      lostOut := if item.lost then sub32 b.lostOut size else b.lostOut }
  else
    none

def markHeadAsLost : TcpTxBuffer :=
  match b.sentList with
  | [] => b
  | head :: rest =>
    { b with
      sentList := { head with sacked := false, retrans := false, lost := true } :: rest
      sackedOut := if head.sacked then sub32 b.sackedOut head.size else b.sackedOut
      retrans := if head.retrans then sub32 b.retrans head.size else b.retrans
      lostOut := if head.lost then b.lostOut else add32 b.lostOut head.size }

/-- The first item after the head that is not sacked gets the flag. -/
def addRenoSack : Option TcpTxBuffer :=
  match b.sentList with
  | [] => none
  | head :: rest =>
    if b.sackEnabled ∧ rest = [] then none
    else
      let sacked := rest.takeWhile TcpTxItem.sacked
      match rest.dropWhile TcpTxItem.sacked with
      | [] => some { b with renoSack := true }
      | item :: after =>
        some { b with
          renoSack := true
          sentList := head :: sacked ++ { item with sacked := true } :: after
          sackedOut := add32 b.sackedOut item.size
          highestSack := (.item (sacked.length + 1), item.startSeq) }

def resetRenoSack : TcpTxBuffer :=
  { b with
    sackedOut := 0
    sentList := b.sentList.map fun item => { item with sacked := false }
    highestSack := (.end_, .of 0) }

def resetSentList : TcpTxBuffer :=
  { b with
    appList := (b.sentList.map fun item =>
        { item with retrans := false, sacked := false, lost := false }) ++ b.appList
    sentList := []
    sentSize := 0
    lostOut := 0
    retrans := 0
    sackedOut := 0
    highestSack := (.end_, .of 0) }

def resetLastSegmentSent : TcpTxBuffer :=
  match b.sentList.getLast? with
  | none => b
  | some item =>
    { b with
      sentList := b.sentList.dropLast
      sentSize := sub32 b.sentSize item.size
      retrans := if item.retrans then sub32 b.retrans item.size else b.retrans
      appList := item :: b.appList
      highestSack := (b.highestSack.1.erased (b.sentList.length - 1), b.highestSack.2) }

/-- The sizes of the items that become or stay lost. -/
def lostSize : List TcpTxItem → Nat
  | [] => 0
  | item :: rest => if item.lost || !item.sacked then add32 item.size (lostSize rest) else lostSize rest

def setSentListLost (resetSack : Bool) : Option TcpTxBuffer :=
  let b :=
    if resetSack then
      { b with
        retrans := 0
        sackedOut := 0
        lostOut := b.sentSize
        highestSack := (.end_, .of 0)
        sentList := b.sentList.map fun item =>
          { item with sacked := false, lost := true, retrans := false } }
    else
      { b with
        retrans := 0
        lostOut := lostSize b.sentList
        sentList := b.sentList.map fun item =>
          { item with lost := item.lost || !item.sacked, retrans := false } }
  if add32 b.sackedOut b.lostOut ≤ b.sentSize then some b else none

def isHeadRetransmitted : Option Bool :=
  if b.sentSize = 0 then some false else b.sentList.head?.map TcpTxItem.retrans

def deleteRetransmittedFlagFromHead : Option TcpTxBuffer :=
  if b.sentSize = 0 then some b
  else
    match b.sentList with
    | [] => none
    | head :: rest =>
      if head.retrans then
        some { b with
          sentList := { head with retrans := false } :: rest
          retrans := sub32 b.retrans head.size }
      else some b

def bytesInFlight : Option Nat :=
  let leftOut := add32 b.sackedOut b.lostOut
  if leftOut ≤ b.sentSize then some (add32 (sub32 b.sentSize leftOut) b.retrans) else none

/-! ## `DiscardUpTo` -/

/-- The loop of `DiscardUpTo`. Each round takes a byte at least. -/
def discardLoop (now : Time) : (fuel : Nat) → TcpTxBuffer → (offset : Nat) → Option TcpTxBuffer
  | 0, _, _ => none
  | fuel + 1, b, offset =>
    if 0 < b.size ∧ 0 < offset then do
      let b ← match b.sentList with
        | [] => do
          -- data moves from the app list to the sent list
          match ← b.copyFromSequence now offset b.firstByteSeq with
          | (_, none) => none
          | (b, some _) => some b
        | _ :: _ => some b
      match b.sentList with
      | [] => none
      | item :: rest =>
        if item.startSeq ≠ b.firstByteSeq then none
        else if item.size ≤ offset then do
          let b ← { b with
            size := sub32 b.size item.size
            sentSize := sub32 b.sentSize item.size
            firstByteSeq := b.firstByteSeq.add item.size }.removeFromCounts item item.size
          discardLoop now fuel { b with
            sentList := rest
            highestSack := (b.highestSack.1.erased 0, b.highestSack.2) } (offset - item.size)
        else do
          let item := { item with
            packet := createFragment item.packet offset (item.size - offset)
            startSeq := item.startSeq.add offset }
          { b with
            sentList := item :: rest
            size := sub32 b.size offset
            sentSize := sub32 b.sentSize offset
            firstByteSeq := b.firstByteSeq.add offset }.removeFromCounts item offset
    else
      some b

def discardUpTo (now : Time) (seq : SequenceNumber32) : Option TcpTxBuffer :=
  if Ge b.firstByteSeq seq then some b
  else do
    let offset := seq.sub b.firstByteSeq
    let b ← discardLoop now (offset + 1) b offset
    let b := if b.size = 0 then { b with firstByteSeq := seq } else b
    let b ← match b.sentList with
      | [] => some b
      | head :: rest => do
        if head.startSeq ≠ seq then none
        else if head.sacked then
          if head.lost then none
          else do
            let b ← { b with
              sentList := { head with sacked := false } :: rest
              sackedOut := sub32 b.sackedOut head.size }.addRenoSack
            some b.markHeadAsLost
        else some b
    let b :=
      if Le b.highestSack.2 b.firstByteSeq then { b with highestSack := (.end_, .of 0) } else b
    if Ge b.firstByteSeq seq ∧ add32 b.sackedOut b.lostOut ≤ b.sentSize then some b else none

/-! ## `Update` -/

/-- What the scan for a block changes besides the flags. -/
structure Marking where
  lostOut : Nat
  sackedOut : Nat
  bytesSacked : Nat
  highestSack : Iterator × SequenceNumber32

/-- The item that begins and ends so is precisely mapped over the option. -/
def Inside (span block : SackBlock) : Prop := Ge span.1 block.1 ∧ Le span.2 block.2

instance (span block : SackBlock) : Decidable (Inside span block) :=
  inferInstanceAs (Decidable (_ ∧ _))

/-- The `i`-th item, which begins at `beginOfCurrentPacket`, gets sacked. -/
def Marking.mark (m : Marking) (i : Nat) (beginOfCurrentPacket : SequenceNumber32)
    (item : TcpTxItem) : Marking where
  lostOut := if item.lost then sub32 m.lostOut item.size else m.lostOut
  sackedOut := add32 m.sackedOut item.size
  bytesSacked := add32 m.bytesSacked item.size
  highestSack :=
    if m.highestSack.1 = .end_ ∨ Le m.highestSack.2 (beginOfCurrentPacket.add item.size) then
      (.item i, beginOfCurrentPacket)
    else m.highestSack

/-- The scan for one block, from the `i`-th item on. -/
def scanBlock (block : SackBlock) : (i : Nat) → SequenceNumber32 → List TcpTxItem → Marking →
    Option (List TcpTxItem × Marking)
  | _, _, [], m => some ([], m)
  | i, beginOfCurrentPacket, item :: rest, m =>
    let next := beginOfCurrentPacket.add item.size
    if Inside (beginOfCurrentPacket, next) block then
      if item.sacked then
        if item.lost then none
        else (scanBlock block (i + 1) next rest m).map (Prod.map (item :: ·) id)
      else
        (scanBlock block (i + 1) next rest (m.mark i beginOfCurrentPacket item)).map
          (Prod.map (item.sack :: ·) id)
    else if next.Gt block.2 then
      some (item :: rest, m)
    else
      (scanBlock block (i + 1) next rest m).map (Prod.map (item :: ·) id)

/-- The loop over the blocks. It ends at a block outside the sent list, and
`Update` with it. -/
def scanBlocks (firstByteSeq : SequenceNumber32) (sentSize : Nat) : List SackBlock →
    List TcpTxItem → Marking → Option (List TcpTxItem × Marking × Bool)
  | [], items, m => some (items, m, true)
  | block :: blocks, items, m =>
    if Lt (firstByteSeq.add sentSize) block.1 then some (items, m, false)
    else do
      let (items, m) ← scanBlock block 0 firstByteSeq items m
      scanBlocks firstByteSeq sentSize blocks items m

/-- The loop of `UpdateLostCount`, which goes from the last of the items to the first: the
items, how many of them are sacked, and `m_lostOut`. -/
def lostFrom (dupAckThresh lostOut : Nat) : List TcpTxItem → List TcpTxItem × Nat × Nat
  | [] => ([], 0, lostOut)
  | item :: rest =>
    let (rest, sacked, lostOut) := lostFrom dupAckThresh lostOut rest
    let sacked := if item.sacked then sacked + 1 else sacked
    if dupAckThresh ≤ sacked ∧ !item.sacked ∧ !item.lost then
      ({ item with lost := true } :: rest, sacked, add32 lostOut item.size)
    else
      (item :: rest, sacked, lostOut)

def updateLostCount : Option TcpTxBuffer :=
  match b.highestSack.1, b.sentList with
  | .item i, head :: rest =>
    let (walked, sacked, lostOut) := lostFrom b.dupAckThresh b.lostOut (rest.take i)
    if b.dupAckThresh ≤ sacked ∧ !head.lost then
      some { b with
        sentList := { head with lost := true } :: walked ++ rest.drop i
        lostOut := add32 lostOut head.size }
    else
      some { b with sentList := head :: walked ++ rest.drop i, lostOut := lostOut }
  | .end_, [] => if b.dupAckThresh = 0 then none else some b
  | _, _ => none

/-- `Update` after the loop. -/
def afterScan (bytesSacked : Nat) : Option TcpTxBuffer := do
  let b ←
    if 0 < bytesSacked then
      if b.highestSack.1 = .end_ then none else b.updateLostCount
    else some b
  match b.sentList with
  | [] => none
  | head :: _ =>
    if head.sacked = false ∧ add32 b.sackedOut b.lostOut ≤ b.sentSize then some b else none

/-- With the number of bytes that are newly sacked. -/
def update (list : List SackBlock) : Option (TcpTxBuffer × Nat) := do
  let (items, m, all) ← scanBlocks b.firstByteSeq b.sentSize list b.sentList
    ⟨b.lostOut, b.sackedOut, 0, b.highestSack⟩
  let b := { b with
    sentList := items
    lostOut := m.lostOut
    sackedOut := m.sackedOut
    highestSack := m.highestSack }
  if all then return (← b.afterScan m.bytesSacked, m.bytesSacked)
  else return (b, m.bytesSacked)

end TcpTxBuffer

end Ns3.Internet
