import FileSignatures.Database.Reader

/-!
# The built-in database

The signatures of common image, audio, archive, document and executable
formats, for use where no database is given.

## Main definitions

* `Database.builtinLines`: The lines of the database.
* `RuleSet.builtin`: Its rules.
-/

namespace FileSignatures

/-- The lines of the built-in database. Rules are reported by the number of
    their line, so comments and blank lines are part of it. -/
def Database.builtinLines : List String :=
  ["# FILE_ID DB",
   "# Date: 2026-10-19",
   "# Source: magicdb built-in signatures",
   "#",
   "# Offset | type | test | description. Fields are TAB separated.",
   "# '&' lines must match as well, '>' lines add information.",
   "",
   "# ---- Images ----------------------------------------------------------------",
   "0\tstring\t\\x89PNG\\r\\n\\032\\n\tPNG image data [ext=png;fid=PNG;mime=image/png]",
   ">16\tbelong\tx\t[res=%d",
   ">20\tbelong\tx\tx%d]",
   "0\tstring\tGIF8\tGIF image data",
   "&5\tbyte\t=0x61",
   ">4\tbyte\t=0x37\t, version 87a",
   ">4\tbyte\t=0x39\t, version 89a",
   ">0\tbyte\tx\t [ext=gif;fid=GIF;mime=image/gif]",
   ">6\tleshort\tx\t[res=%d",
   ">8\tleshort\tx\tx%d]",
   "0\tbeshort\t0xffd8\tJPEG image data [ext=jpg;fid=JPEG;mime=image/jpeg]",
   "&2\tbyte\t=0xff",
   "6\tstring\tJFIF\tJPEG image data, JFIF standard [ext=jpg;fid=JFIF;mime=image/jpeg]",
   "&0\tbeshort\t0xffd8",
   "&10\tbyte\t=0",
   "0\tstring\tBM\tPC bitmap [ext=bmp;fid=BMP;mime=image/bmp]",
   "&14\tlelong&0xFFFFFF00\t=0",
   ">18\tlelong\tx\t[res=%d",
   ">22\tlelong\tx\tx%d]",
   "0\tstring\tII*\\0\tTIFF image data, little-endian [ext=tif;fid=TIFF;mime=image/tiff]",
   "0\tstring\tMM\\0*\tTIFF image data, big-endian [ext=tif;fid=TIFF;mime=image/tiff]",
   "0\tstring\tRIFF\tWebP image [ext=webp;mime=image/webp]",
   "&8\tstring\tWEBP",
   "",
   "# ---- Audio / video ---------------------------------------------------------",
   "0\tstring\tRIFF\tRIFF data [mime=application/octet-stream]",
   "0\tstring\tRIFF\tRIFF WAVE audio [ext=wav;fid=WAVE;mime=audio/x-wav]",
   "&8\tstring\tWAVE",
   ">22\tleshort\tx\t[chn=%d]",
   ">24\tlelong\tx\t[freq=%d]",
   "0\tstring\tRIFF\tAVI video [ext=avi;fid=AVI;mime=video/x-msvideo]",
   "&8\tstring\tAVI\\040",
   ">32\tlelong\t>0\t[frameRate=1000000/%d]",
   ">64\tlelong\tx\t[res=%d",
   ">68\tlelong\tx\tx%d]",
   "0\tstring\tID3\tMP3 audio with ID3 version 2 tag [ext=mp3;mime=audio/mpeg]",
   ">3\tbyte\tx\t[version=2.%d]",
   "-128\tstring\tTAG\tMP3 audio with ID3 version 1 tag [ext=mp3;mime=audio/mpeg]",
   ">-125\tstring\tx\t[title=%.30s]",
   ">-95\tstring\tx\t[creator=%.30s]",
   "0\tbeshort&0xFFE0\t=0xFFE0\tMPEG audio stream [ext=mp3;mime=audio/mpeg]",
   "0\tstring\tOggS\tOgg data [ext=ogg;fid=OGG;mime=application/ogg]",
   "0\tstring\tfLaC\tFLAC audio [ext=flac;fid=FLAC;mime=audio/flac]",
   "0\tbelong\t0x000001BA\tMPEG program stream [ext=mpg;mime=video/mpeg]",
   "0\tbelong\t0x000001B3\tMPEG video stream [ext=mpv;mime=video/mpeg]",
   ">4\tbeshort\tx\t[res=%d]",
   "",
   "# ---- Archives --------------------------------------------------------------",
   "0\tstring\tPK\\003\\004\tZIP archive data",
   ">4\tbyte\tx\t, at least v%d to extract",
   ">0\tbyte\tx\t [ext=zip;fid=ZIP;mime=application/zip]",
   "-22\tstring\tPK\\005\\006\tZIP archive data, empty or end of central directory " ++
     "[ext=zip;mime=application/zip]",
   "0\tbeshort\t0x1f8b\tgzip compressed data",
   "&2\tbyte\t=8",
   ">3\tbyte\t&0x08\t, original name stored",
   ">0\tbyte\tx\t [ext=gz;fid=GZIP;mime=application/gzip]",
   "0\tstring\tBZh\tbzip2 compressed data [ext=bz2;mime=application/x-bzip2]",
   "0\tstring\t7z\\274\\257\\047\\034\t7-zip archive data " ++
     "[ext=7z;mime=application/x-7z-compressed]",
   "257\tstring\tustar\tPOSIX tar archive [ext=tar;mime=application/x-tar]",
   "0\tstring\t!<arch>\tcurrent ar archive [ext=a;mime=application/x-archive]",
   "",
   "# ---- Documents -------------------------------------------------------------",
   "0\tstring\t%PDF-\tPDF document [ext=pdf;fid=PDF;mime=application/pdf]",
   ">5\tstring\tx\t[version=%.3s]",
   "0\tstring\t%!PS\tPostScript document text [ext=ps;mime=application/postscript]",
   "0\tstring\t\x7b\\\\rtf\tRich Text Format data [ext=rtf;mime=text/rtf]",
   "0\tstring/c\t<!doctype\\040html\tHTML document text [ext=html;mime=text/html]",
   "0\tstring/c\t<html\tHTML document text [ext=html;mime=text/html]",
   "0\tstring\t<?xml\tXML document text [ext=xml;mime=text/xml]",
   "0\tstring\tSQLite\\040format\\0403\tSQLite 3.x database " ++
     "[ext=sqlite;mime=application/vnd.sqlite3]",
   "",
   "# ---- Executables -----------------------------------------------------------",
   "0\tstring\t\\177ELF\tELF",
   ">4\tbyte\t=1\t 32-bit",
   ">4\tbyte\t=2\t 64-bit",
   ">5\tbyte\t=1\t LSB",
   ">5\tbyte\t=2\t MSB",
   ">0\tbyte\tx\t executable [ext=elf;mime=application/x-executable]",
   "0\tstring\tMZ\tMS-DOS executable [ext=exe;mime=application/x-dosexec]",
   "0\tstring\tMZ\tPE32 executable for MS Windows " ++
     "[ext=exe;fid=PE;mime=application/vnd.microsoft.portable-executable]",
   "&(0x3c.l)\tstring\tPE\\0\\0",
   "0\tbelong\t0xCAFEBABE\tcompiled Java class data [ext=class;mime=application/java-vm]",
   ">6\tbeshort\tx\t[version=%d",
   ">4\tbeshort\tx\t.%d]",
   "0\tstring\t#!/bin/sh\tPOSIX shell script text [ext=sh;mime=text/x-shellscript]"]

/-- The text of the built-in database. -/
def Database.builtinText : Text :=
  Database.builtinLines.flatMap fun line => line.toList ++ ['\n']

/-- The rules of the built-in database. -/
def RuleSet.builtin : Except FormatError RuleSet :=
  RuleSet.ofText Database.builtinText

end FileSignatures
