import N32905.Lib.Codec
import N32905.MnWriter.Structs
import N32905.Lib.Extents
import N32905.MnWriter.FwInfo
import N32905.MnWriter.Burn
import N32905.MnWriter.Layout
import N32905.MnWriter.SysBlock
import N32905.JpegCodec.Header
import N32905.Lib.Run
import N32905.PowerManager
import N32905.VideoIn.Dsc
import N32905.Lib.NorFlash
import N32905.Spi.Discipline
import N32905.Spi.RoundTrip
import N32905.Blt.Position
import N32905.JpegCodec.Resize
import N32905.Lib.CString
import N32905.Lib.Tiff
import N32905.MnWriter.Ini
import N32905.MnWriter.OptionalIni
import N32905.Motion.Register
import N32905.VideoIn.Exif
import N32905.VideoIn.Zoom
import N32905.JpegCodec.Bounds
import N32905.JpegCodec.EngineBuffer
import N32905.MnWriter.ReadLine
import N32905.Motion.Crossings
import N32905.VideoIn.CapNames
import N32905.VideoIn.Capture
import N32905.MnWriter.SysBounds
import N32905.MnWriter.BlankLines
import N32905.MnWriter.Blocks
import N32905.MnWriter.Capacity
import N32905.IjgJpeg.Display
import N32905.JpegCodec.FrameBuffer
import N32905.JpegCodec.Streaming
import N32905.JpegCodec.WindowSweep
import N32905.MnWriter.LongLines
import N32905.MnWriter.BlankFiles
import N32905.VideoIn.ZoomUndo
import N32905.Audio.Playback
import N32905.Audio.Recording
import N32905.IjgJpeg.Convert
import N32905.Lib.Numeral
import N32905.MnWriter.Hex
import N32905.Motion.Table
import N32905.Rtc.Alarm
import N32905.VideoIn.ExifBounds
import N32905.VideoIn.UserControl
import N32905.Webcam.Pool
import N32905.Lib.Stream
import N32905.Tslib.Sample
import N32905.Tslib.Pthres
import N32905.Tslib.Variance
import N32905.Tslib.Dejitter
import N32905.Tslib.Chain
import N32905.Webcam.Frames
import N32905.IjgJpeg.Decompress
import N32905.Lib.Precedence
import N32905.Lib.Effects
import N32905.Busybox.Arith
import N32905.Busybox.Shells
import N32905.Busybox.Expression
import N32905.Busybox.ArithValue
import N32905.Busybox.ArithParse
import N32905.Busybox.ArithGrammar
import N32905.Busybox.ArithSafe
import N32905.Busybox.ArithVariables
import N32905.Lib.Programming
import N32905.MnWriter.Boot
import N32905.Udhcp.Restart
import N32905.Udhcp.Answers
import N32905.Udhcp.Wire
import N32905.Udhcp.Supply
import N32905.Lib.Hoare
import N32905.Lib.Slots
import N32905.Udhcp.Choosing
