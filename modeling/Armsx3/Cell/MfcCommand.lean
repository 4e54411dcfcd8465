import Mathlib

/-!
# MfcCommand — the commands of the memory flow controller

`MFC` and `spu_mfc_cmd`.  A command is kept as its byte, since the code takes it apart with masks.
-/

namespace Armsx3.Cell

abbrev MFC := BitVec 8

namespace MFC

def put : MFC := 0x20
def putb : MFC := 0x21
def putf : MFC := 0x22
def putr : MFC := 0x30
def putrb : MFC := 0x31
def putrf : MFC := 0x32
def get : MFC := 0x40
def getb : MFC := 0x41
def getf : MFC := 0x42
def putl : MFC := 0x24
def putlb : MFC := 0x25
def putlf : MFC := 0x26
def putrl : MFC := 0x34
def putrlb : MFC := 0x35
def putrlf : MFC := 0x36
def getl : MFC := 0x44
def getlb : MFC := 0x45
def getlf : MFC := 0x46
def putqlluc : MFC := 0xB8
def sndsig : MFC := 0xA0
def sndsigb : MFC := 0xA1
def sndsigf : MFC := 0xA2
def barrier : MFC := 0xC0
def eieio : MFC := 0xC8
def sync : MFC := 0xCC
def sdcrz : MFC := 0x89

def barrierMask : MFC := 0x01
def fenceMask : MFC := 0x02
def listMask : MFC := 0x04

end MFC

structure SpuMfcCmd where
  cmd : MFC
  tag : BitVec 8 := 0
  size : BitVec 16 := 0
  lsa : BitVec 32 := 0
  eal : BitVec 32 := 0
  eah : BitVec 32 := 0
deriving DecidableEq, Repr

end Armsx3.Cell
